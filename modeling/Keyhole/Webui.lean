import Mathlib.Data.List.Basic

/-!
# Serving the web application

The handler answers from the files the binary was built with. A path under
`/assets/` is a file or not found; any other path without a file behind it is
a route of the client's and gets the index.
-/

namespace Keyhole.Webui

abbrev Path : Type := List UInt8

def bytes (s : String) : Path := s.toList.map fun c => UInt8.ofNat c.toNat

def indexPath : Path := bytes "index.html"

def placeholderPath : Path := bytes "placeholder.html"

/-- The directories are those of the names. -/
def isDirOf (files : List (Path × List UInt8)) (name : Path) : Bool :=
  name = bytes "." || files.any fun f => (name ++ bytes "/").isPrefixOf f.1

/-- The files of `dist`. -/
structure Site where
  files : List (Path × List UInt8)
  index_file : isDirOf files indexPath = false
  placeholder_file : isDirOf files placeholderPath = false

namespace Site

def file (s : Site) (name : Path) : Option (List UInt8) := s.files.lookup name

def isDir (s : Site) (name : Path) : Bool := isDirOf s.files name

/-- `fs.Stat`. -/
def stat (s : Site) (name : Path) : Bool := (s.file name).isSome || s.isDir name

end Site

def Site.built (s : Site) : Bool := s.stat indexPath

inductive Reply
  | content (body : List UInt8)
  | listing
  | redirect
  | notFound
  deriving DecidableEq, Repr

/-- `http.FileServer` on a clean path without a slash at its end, the root apart. -/
def Site.fileServer (s : Site) (path : Path) : Reply :=
  if bytes "/index.html" <:+ path then .redirect
  else if path = bytes "/" then
    match s.file indexPath with
    | some body => .content body
    | none => .listing
  else
    match s.file (path.drop 1) with
    | some body => .content body
    | none => if s.isDir (path.drop 1) then .redirect else .notFound

structure Served where
  contentType : Option String
  cacheControl : String
  reply : Reply
  deriving DecidableEq, Repr

/-- The end of the handler, where `name` is the file that `path` asks for. -/
def Site.serve (s : Site) (name path : Path) : Served :=
  let (name, path) :=
    if name = indexPath ∧ s.built = false then (placeholderPath, bytes "/" ++ placeholderPath) else (name, path)
  { contentType := if bytes ".webmanifest" <:+ name then some "application/manifest+json" else none
    cacheControl := if bytes "assets/" <+: name then "public, max-age=31536000, immutable" else "no-store"
    reply := s.fileServer path }

def trimSlash (path : Path) : Path := if bytes "/" <+: path then path.drop 1 else path

/-- What the security headers set is there when the handler sets nothing. -/
def Site.handler (s : Site) (path : Path) : Served :=
  let name := if trimSlash path = [] then indexPath else trimSlash path
  if s.stat name then s.serve name path
  else if bytes "/assets/" <+: path then { contentType := none, cacheControl := "no-store", reply := .notFound }
  else s.serve indexPath (bytes "/")

/-! ## What is answered -/

/-- The answer to a client's route, and to the root. -/
def Site.front (s : Site) : Reply :=
  match s.file indexPath with
  | some body => .content body
  | none =>
    match s.file placeholderPath with
    | some body => .content body
    | none => .notFound

section
variable {s : Site}

theorem built_eq : s.built = (s.file indexPath).isSome := by
  unfold Site.built Site.stat Site.isDir
  rw [s.index_file, Bool.or_false]

theorem fileServer_placeholder :
    s.fileServer (bytes "/" ++ placeholderPath) = match s.file placeholderPath with
      | some body => .content body
      | none => .notFound := by
  unfold Site.fileServer Site.isDir
  rw [if_neg (by decide), if_neg (by decide)]
  have hd : (bytes "/" ++ placeholderPath).drop 1 = placeholderPath := rfl
  rw [hd, s.placeholder_file]
  rfl

theorem serve_index : (s.serve indexPath (bytes "/")).reply = s.front := by
  unfold Site.serve Site.front
  cases hf : s.file indexPath with
  | some body =>
    have hb : s.built = true := by rw [built_eq, hf]; rfl
    simp only [hb, Bool.true_eq_false, and_false, if_false]
    unfold Site.fileServer
    rw [if_neg (by decide), if_pos rfl, hf]
  | none =>
    have hb : s.built = false := by rw [built_eq, hf]; rfl
    simp only [hb, and_true, if_true]
    exact fileServer_placeholder

theorem handler_root : (s.handler (bytes "/")).reply = s.front := by
  unfold Site.handler
  have hn : (if trimSlash (bytes "/") = [] then indexPath else trimSlash (bytes "/")) = indexPath := by decide
  simp only [hn]
  by_cases h : s.stat indexPath = true
  · rw [if_pos h]
    exact serve_index
  · rw [if_neg h, if_neg (by decide)]
    exact serve_index

/-- Every path that is neither a file nor an asset is a route of the client's. -/
theorem handler_route {path : Path} (hs : s.stat (trimSlash path) = false) (hne : trimSlash path ≠ [])
    (ha : ¬ bytes "/assets/" <+: path) : (s.handler path).reply = s.front := by
  unfold Site.handler
  simp only [if_neg hne, hs, Bool.false_eq_true, if_false, if_neg ha]
  exact serve_index

/-- A path under `/assets/` is never answered with the index. -/
theorem handler_asset {name : Path} (hn : bytes "assets/" <+: name)
    (hi : ¬ bytes "/index.html" <:+ bytes "/" ++ name) :
    (s.handler (bytes "/" ++ name)).reply = match s.file name with
      | some body => .content body
      | none => if s.isDir name then .redirect else .notFound := by
  obtain ⟨t, rfl⟩ := hn
  have ht : trimSlash (bytes "/" ++ (bytes "assets/" ++ t)) = bytes "assets/" ++ t := by
    unfold trimSlash
    rw [if_pos (List.prefix_append _ _)]
    rfl
  have hne : bytes "assets/" ++ t ≠ indexPath := by
    intro h
    have := congrArg (·[0]?) h
    simp [bytes, indexPath] at this
  have hroot : bytes "/" ++ (bytes "assets/" ++ t) ≠ bytes "/" := by
    intro h
    have := congrArg (·[1]?) h
    simp [bytes] at this
  have hserver : s.fileServer (bytes "/" ++ (bytes "assets/" ++ t)) = match s.file (bytes "assets/" ++ t) with
      | some body => .content body
      | none => if s.isDir (bytes "assets/" ++ t) then .redirect else .notFound := by
    unfold Site.fileServer
    rw [if_neg hi, if_neg hroot]
    rfl
  have hname : (if bytes "assets/" ++ t = [] then indexPath else bytes "assets/" ++ t) = bytes "assets/" ++ t :=
    if_neg (by simp [bytes])
  unfold Site.handler
  simp only [ht, hname]
  by_cases h : s.stat (bytes "assets/" ++ t) = true
  · rw [if_pos h]
    unfold Site.serve
    simp only [hne, false_and, if_false]
    exact hserver
  · rw [if_neg h, if_pos (by rw [← List.append_assoc]; exact List.prefix_append (bytes "/" ++ bytes "assets/") t)]
    unfold Site.stat at h
    simp only [Bool.or_eq_true, not_or, Bool.not_eq_true, Option.isSome_eq_false_iff,
      Option.isNone_iff_eq_none] at h
    rw [h.1]
    simp [h.2]

end

end Keyhole.Webui
