import Keyhole.Import.Types
import Keyhole.Lib.Await
import Keyhole.Lib.Table

/-!
# The service worker

Its jobs are the listeners of `sw.ts`: installing a build, activating one and
answering a request of a page. Each awaits the network and the origin's cache
storage, and any number of them, of any builds, are under way at a time.
-/

namespace Keyhole.Worker
open Await (Proc)
open Import (Text ascii)

/-- Without its fragment, which neither the network nor a cache looks at. -/
structure Url where
  origin : Text
  pathname : Text
  search : Text
  deriving DecidableEq, Repr

structure Request where
  method : Text
  url : Url
  mode : Text
  deriving DecidableEq, Repr

structure Response (β : Type) where
  status : Nat
  body : β
  deriving DecidableEq, Repr

def Response.ok {β : Type} (r : Response β) : Bool := 200 ≤ r.status && r.status ≤ 299

/-- A text that is a path from the root: a slash, and what follows it is no second one, which would begin a host. -/
def isRooted : Text → Bool
  | slash :: rest => slash == 47 && !(rest.head? == some 47 || rest.head? == some 92)
  | [] => false

/-- The URL parser for a URL relative to the worker's scope. -/
structure Browser where
  origin : Text
  resolve : Text → Url
  same_origin : ∀ {s}, isRooted s = true → (resolve s).origin = origin
  root : (resolve (ascii "/")).pathname = ascii "/"

/-! ## The precache list -/

def lexLe : Text → Text → Bool
  | [], _ => true
  | _ :: _, [] => false
  | a :: s, b :: t => if a = b then lexLe s t else a ≤ b

/-- `Array.prototype.sort` without a comparison. -/
def sort (names : List Text) : List Text := names.insertionSort fun s t => lexLe s t = true

def buildPrecacheList (emitted : List Text) : List Text :=
  ascii "index.html" :: sort (emitted.filter fun name => (ascii "assets/").isPrefixOf name)

def fnvStep (hash : UInt32) (unit : UInt16) : UInt32 := (hash ^^^ unit.toUInt32) * 0x01000193

def digit36 (d : Nat) : UInt16 := .ofNat (if d < 10 then 48 + d else 87 + d)

def base36From : (fuel n : Nat) → Text → Text
  | 0, _, text => text
  | fuel + 1, n, text =>
    if n < 36 then digit36 n :: text else base36From fuel (n / 36) (digit36 (n % 36) :: text)

/-- `Number.prototype.toString(36)`. -/
def base36 (n : Nat) : Text := base36From (n + 1) n []

def cacheName (precache : List Text) : Text :=
  ascii "keyhole-shell-" ++ base36 ((Import.join (ascii "\n") (sort precache)).foldl fnvStep 0x811c9dc5).toNat

/-- What was emitted under `assets/` is served under `/assets/`. -/
structure Build (B : Browser) where
  emitted : List Text
  within : ∀ name ∈ emitted, ascii "assets/" <+: name →
    ascii "/assets/" <+: (B.resolve (ascii "/" ++ name)).pathname

namespace Build

variable {B : Browser}

def PRECACHE (b : Build B) : List Text := buildPrecacheList b.emitted

def CACHE (b : Build B) : Text := cacheName b.PRECACHE

end Build

def SHELL_URL : Text := ascii "/"

/-! ## Commands -/

inductive Cmd (β : Type)
  | openCache (name : Text)
  | keys
  | delete (name : Text)
  | matchCache (cache : Nat) (request : Request)
  | put (cache : Nat) (request : Request) (response : Response β)
  | fetch (request : Request)

@[reducible] def Answer (β : Type) : Cmd β → Type
  | .openCache _ => Nat
  | .keys => List Text
  | .delete _ => Bool
  | .matchCache _ _ => Option (Response β)
  | .put _ _ _ => Unit
  | .fetch _ => Response β

inductive Failure
  /-- `fetch` has no answer: a TypeError. -/
  | network
  | storage
  /-- A `put` that no cache admits: a TypeError. -/
  | notCacheable
  | precache (url : Text) (status : Nat)
  deriving DecidableEq, Repr

abbrev Task (β α : Type) : Type := Proc (Answer β) Failure α

section
variable {β : Type}

def openCache (name : Text) : Task β Nat := .perform (Cmd.openCache name)

def keys : Task β (List Text) := .perform Cmd.keys

def delete (name : Text) : Task β Bool := .perform (Cmd.delete name)

def matchCache (cache : Nat) (request : Request) :
    Task β (Option (Response β)) := .perform (Cmd.matchCache cache request)

def put (cache : Nat) (request : Request) (response : Response β) :
    Task β Unit := .perform (Cmd.put cache request response)

def fetch (request : Request) : Task β (Response β) := .perform (Cmd.fetch request)

end

/-! ## Routing and handling -/

inductive Route
  | bypass
  | cacheFirst
  | networkFirst
  | network
  deriving DecidableEq, Repr

def route (request : Request) : Route :=
  if request.url.pathname = ascii "/api" ∨ ascii "/api/" <+: request.url.pathname then .bypass
  else if request.mode = ascii "navigate" then .networkFirst
  else if ascii "/assets/" <+: request.url.pathname then .cacheFirst
  else .network

def GET : Text := ascii "GET"

/-- What a URL given as a string is a request for. -/
def Browser.get (B : Browser) (url : Text) : Request := ⟨GET, B.resolve url, ascii "cors"⟩

def orElse {β : Type} (found : Option (Response β)) (cache : Nat) (request : Request) :
    Task β (Option (Response β)) :=
  match found with
  | some response => pure (some response)
  | none => matchCache cache request

def handleRequest {β : Type} (B : Browser) (request : Request) (cache : Nat) (shellUrl : Text) :
    Task β (Response β) :=
  match route request with
  | .bypass => fetch request
  | .cacheFirst => do
    match ← matchCache cache request with
    | some cached => pure cached
    | none => do
      let response ← fetch request
      if response.ok then do
        put cache request response
        pure response
      else pure response
  | .networkFirst =>
    (fetch request).catchWith fun error => do
      let found ← matchCache cache request
      match ← orElse found cache (B.get shellUrl) with
      | some shell => pure shell
      | none => .throw error
  | .network => fetch request

/-- index.html is stored under the navigable URL. -/
def urlFor (shellUrl name : Text) : Text := if name = ascii "index.html" then shellUrl else ascii "/" ++ name

def precacheOne {β : Type} (B : Browser) (cache : Nat) (url : Text) : Task β Unit := do
  let response ← fetch (B.get url)
  if response.ok then put cache (B.get url) response else .throw (.precache url response.status)

def precacheShell {β : Type} (B : Browser) (cache : Nat) (precache : List Text) (shellUrl : Text) : Task β Unit :=
  .all (precache.map fun name => precacheOne B cache (urlFor shellUrl name))

def deleteOne {β : Type} (name : Text) : Task β Unit := do
  let _ ← delete name
  pure ()

def deleteStaleCaches {β : Type} (currentName : Text) : Task β Unit := do
  let names ← keys
  .all ((names.filter (· ≠ currentName)).map deleteOne)

/-! ## The listeners -/

inductive Job (B : Browser)
  | install (b : Build B)
  | activate (b : Build B)
  | respond (b : Build B) (request : Request)

inductive Outcome (β : Type)
  | finished
  /-- A request of another origin is left to the browser. -/
  | passed
  | answered (response : Response β)
  deriving DecidableEq, Repr

section
variable {β : Type} {B : Browser}

def install (b : Build B) : Task β (Outcome β) := do
  let cache ← openCache b.CACHE
  precacheShell B cache b.PRECACHE SHELL_URL
  pure .finished

def activate (b : Build B) : Task β (Outcome β) := do
  deleteStaleCaches b.CACHE
  pure .finished

def respond (b : Build B) (request : Request) : Task β (Outcome β) :=
  if request.url.origin = B.origin then do
    let cache ← openCache b.CACHE
    let response ← handleRequest B request cache SHELL_URL
    pure (.answered response)
  else pure .passed

def Job.body : Job B → Task β (Outcome β)
  | .install b => Worker.install b
  | .activate b => Worker.activate b
  | .respond b request => Worker.respond b request

end

/-! ## The cache storage -/

/-- One response for a URL, the latest put. -/
abbrev Cache (β : Type) : Type := Sql.Table (Prod.fst : Url × Response β → Url)

/-- A cache that is deleted while it is open stays with those that have it. -/
structure Storage (β : Type) where
  names : Sql.Table (Prod.fst : Text × Nat → Text)
  caches : List (Cache β)

namespace Storage

variable {β : Type}

def empty : Storage β := ⟨∅, []⟩

def lookup (s : Storage β) (name : Text) : Option Nat := (s.names.get? name).map Prod.snd

def get (s : Storage β) (cache : Nat) (url : Url) : Option (Response β) :=
  s.caches[cache]?.bind fun c => (c.get? url).map Prod.snd

/-- A cache has answers to GET requests only. -/
def matching (s : Storage β) (cache : Nat) (request : Request) : Option (Response β) :=
  if request.method = GET then s.get cache request.url else none

def create (s : Storage β) (name : Text) : Storage β where
  names := s.names.upsert (name, s.caches.length)
  caches := s.caches ++ [∅]

def remove (s : Storage β) (name : Text) : Storage β where
  names := s.names.delete fun entry => entry.1 = name
  caches := s.caches

def store (s : Storage β) (cache : Nat) (url : Url) (response : Response β) : Storage β where
  names := s.names
  caches := s.caches.modify cache fun c => c.upsert (url, response)

end Storage

def Cacheable {β : Type} (request : Request) (response : Response β) : Prop :=
  request.method = GET ∧ response.status ≠ 206

instance {β : Type} (request : Request) (response : Response β) : Decidable (Cacheable request response) :=
  inferInstanceAs (Decidable (_ ∧ _))

/-- What may come of a command. `net` is what the network may answer a request with, at any time; it may also
have no answer, and the storage may refuse any command. -/
inductive Exec {β : Type} (net : Request → Response β → Prop) :
    Storage β → (c : Cmd β) → Except Failure (Answer β c) → Storage β → Prop
  | opened {s : Storage β} {name : Text} {cache : Nat} : s.lookup name = some cache →
      Exec net s (.openCache name) (.ok cache) s
  | created {s : Storage β} {name : Text} : s.lookup name = none →
      Exec net s (.openCache name) (.ok s.caches.length) (s.create name)
  | keys {s : Storage β} : Exec net s .keys (.ok (s.names.rows.map Prod.fst)) s
  | deleted {s : Storage β} {name : Text} :
      Exec net s (.delete name) (.ok (s.lookup name).isSome) (s.remove name)
  | matched {s : Storage β} {cache : Nat} {request : Request} :
      Exec net s (.matchCache cache request) (.ok (s.matching cache request)) s
  | stored {s : Storage β} {cache : Nat} {request : Request} {response : Response β} :
      cache < s.caches.length → Cacheable request response →
      Exec net s (.put cache request response) (.ok ()) (s.store cache request.url response)
  | refused {s : Storage β} {cache : Nat} {request : Request} {response : Response β} :
      ¬ Cacheable request response → Exec net s (.put cache request response) (.error .notCacheable) s
  | fetched {s : Storage β} {request : Request} {response : Response β} : net request response →
      Exec net s (.fetch request) (.ok response) s
  | offline {s : Storage β} {request : Request} : Exec net s (.fetch request) (.error .network) s
  | failed {s : Storage β} {c : Cmd β} : (∀ request, c ≠ .fetch request) → Exec net s c (.error .storage) s

/-! ## Runs -/

abbrev Pool (β : Type) (B : Browser) : Type := Await.Pool (Storage β) (Job B) (Answer β) Failure (Outcome β)

abbrev Event (β : Type) (B : Browser) : Type := Await.Event (Job B) (Answer β) Failure

abbrev Step {β : Type} {B : Browser} (net : Request → Response β → Prop) :
    Pool β B → Event β B → Pool β B → Prop :=
  Await.Step (Exec net) Job.body

def Pool.start {β : Type} {B : Browser} : Pool β B := ⟨.empty, fun _ => none⟩

def Reachable {β : Type} {B : Browser} (net : Request → Response β → Prop) (w : Pool β B) : Prop :=
  Lts.Reachable (· = Pool.start) (Step net) w

end Keyhole.Worker
