import Keyhole.Webui
import Keyhole.Worker.Kept

/-!
# The cache against the server

The network of the worker is the server, before and after any number of
deployments. A file name under `assets/` carries a hash of the content, so two
deployments that have a file of one name have the same file.
-/

namespace Keyhole.Worker
open Import (Text ascii)
open Webui (Site Path bytes)

def contains (p part : Path) : Bool := p.tails.any part.isPrefixOf

/-- A path that the router does not redirect: no segment of it is empty or leads elsewhere. -/
def cleanPath (p : Path) : Bool :=
  (bytes "/").isPrefixOf p && !contains p (bytes "//") && !contains (p ++ bytes "/") (bytes "/./") &&
    !contains (p ++ bytes "/") (bytes "/../")

/-- A path that the router leaves to the web application. -/
def webPath (p : Path) : Bool := p ≠ bytes "/healthz" && !(bytes "/api/").isPrefixOf p

/-- What a client that follows redirects may get for a path. -/
def Gets (s : Site) (p : Path) (r : Response (List UInt8)) : Prop :=
  cleanPath p = true → webPath p = true →
    match (s.handler p).reply with
    | .content body => r = ⟨200, body⟩
    | .listing => r.status = 200
    | .redirect => True
    | .notFound => r.status = 404

/-- `path` is the decoded path a URL arrives with. -/
structure Deployment (B : Browser) where
  deployed : Site → Prop
  path : Url → Path
  path_root : path (B.resolve SHELL_URL) = bytes "/"
  /-- The names carry a hash of the content. -/
  hashed : ∀ s s' name body body', deployed s → deployed s' → bytes "assets/" <+: name →
    s.file name = some body →
    s'.file name = some body' → body = body'

namespace Deployment

variable {B : Browser} (D : Deployment B)

def net (q : Request) (r : Response (List UInt8)) : Prop := ∃ s, D.deployed s ∧ Gets s (D.path q.url) r

/-- `u` is the URL of the file `name` under `assets/`, and no deployment has a directory there. -/
structure AssetUrl (u : Url) (name : Path) : Prop where
  path : D.path u = bytes "/" ++ name
  asset : bytes "assets/" <+: name
  clean : cleanPath (bytes "/" ++ name) = true
  direct : ¬ bytes "/index.html" <:+ bytes "/" ++ name
  no_dir : ∀ s, D.deployed s → s.isDir name = false

variable {D}

theorem net_asset {q : Request} {r : Response (List UInt8)} {name : Path} (hu : D.AssetUrl q.url name)
    (h : D.net q r) :
    (∃ s, D.deployed s ∧ s.file name = some r.body ∧ r.status = 200) ∨ r.status = 404 := by
  obtain ⟨s, hs, hg⟩ := h
  have hweb : webPath (bytes "/" ++ name) = true := by
    obtain ⟨t, rfl⟩ := hu.asset
    simp [webPath, bytes, List.isPrefixOf]
  rw [hu.path] at hg
  have hr := hg hu.clean hweb
  rw [Webui.handler_asset hu.asset hu.direct, hu.no_dir s hs] at hr
  cases hf : s.file name with
  | some body =>
    rw [hf] at hr
    change r = ⟨200, body⟩ at hr
    subst hr
    exact .inl ⟨s, hs, hf, rfl⟩
  | none =>
    rw [hf] at hr
    exact .inr hr

theorem net_shell {q : Request} {r : Response (List UInt8)} (hu : q.url = B.resolve SHELL_URL) (h : D.net q r) :
    (∃ s, D.deployed s ∧ s.front = .content r.body ∧ r.status = 200) ∨ r.status = 404 := by
  obtain ⟨s, hs, hg⟩ := h
  rw [hu, D.path_root] at hg
  have hr := hg (by decide) (by decide)
  rw [Webui.handler_root] at hr
  unfold Site.front at hr ⊢
  cases hf : s.file Webui.indexPath with
  | some body =>
    rw [hf] at hr
    change r = ⟨200, body⟩ at hr
    subst hr
    exact .inl ⟨s, hs, by rw [hf], rfl⟩
  | none =>
    rw [hf] at hr
    cases hp : s.file Webui.placeholderPath with
    | some body =>
      rw [hp] at hr
      change r = ⟨200, body⟩ at hr
      subst hr
      exact .inl ⟨s, hs, by rw [hf, hp], rfl⟩
    | none =>
      rw [hp] at hr
      exact .inr hr

/-- `r` is the file `name` of whatever deployment has it. -/
def Genuine (D : Deployment B) (name : Path) (r : Response (List UInt8)) : Prop :=
  (∃ s, D.deployed s ∧ s.file name = some r.body) ∧ ∀ s body, D.deployed s → s.file name = some body →
    body = r.body

theorem genuine {name : Path} {r : Response (List UInt8)} (ha : bytes "assets/" <+: name)
    (h : ∃ s, D.deployed s ∧ s.file name = some r.body ∧ r.status = 200) : D.Genuine name r := by
  obtain ⟨s, hs, hf, -⟩ := h
  exact ⟨⟨s, hs, hf⟩, fun s' body hs' hf' => D.hashed s' s name body r.body hs' hs ha hf' hf⟩

theorem kept_genuine {u : Url} {r : Response (List UInt8)} {name : Path} (hu : D.AssetUrl u name)
    (hk : Kept B D.net u r) : D.Genuine name r := by
  obtain ⟨q, rfl, hn⟩ := hk.asked
  rcases net_asset hu hn with h | h
  · exact genuine hu.asset h
  · have hok := hk.ok
    rw [Response.ok, h] at hok
    cases hok

/-- What a cache has for an asset, and what a page that does not navigate there is answered for it, is the asset of
every deployment that has it, and never the index; the shell is the front page of a deployment. -/
theorem assets_genuine {w : Pool (List UInt8) B} (h : Reachable D.net w) :
    (∀ cache u r name, w.shared.get cache u = some r → D.AssetUrl u name → D.Genuine name r) ∧
    (∀ cache r, w.shared.get cache (B.resolve SHELL_URL) = some r →
      ∃ s, D.deployed s ∧ s.front = .content r.body) ∧
    ∀ i b q r name, w.task i = some (.respond b q, .done (.ok (.answered r))) → q.mode ≠ ascii "navigate" →
      D.AssetUrl q.url name → D.Genuine name r ∨ r.status = 404 := by
  obtain ⟨hs, hw⟩ := reachable_clean h
  refine ⟨fun cache u r name hg hu => kept_genuine hu (hs cache u r hg), fun cache r hg => ?_, ?_⟩
  · have hk := hs cache _ r hg
    obtain ⟨q, hq, hn⟩ := hk.asked
    rcases net_shell hq hn with ⟨s, hd, hf, -⟩ | h
    · exact ⟨s, hd, hf⟩
    · have hok := hk.ok
      rw [Response.ok, h] at hok
      cases hok
  · intro i b q r name ht hr hu
    rcases hw i _ _ trivial ht r rfl with hn | ⟨-, hk⟩ | ⟨hc, -⟩
    · rcases net_asset hu hn with h | h
      · exact .inl (genuine hu.asset h)
      · exact .inr h
    · exact .inl (kept_genuine hu hk)
    · exact absurd (route_eq_networkFirst hc) hr

def app : Site where
  files := [(Webui.indexPath, [60, 104]), (bytes "assets/a.js", [1, 2])]
  index_file := by decide
  placeholder_file := by decide

def one : Deployment home where
  deployed s := s = app
  path u := u.pathname.map fun unit => UInt8.ofNat unit.toNat
  path_root := by decide
  hashed := by
    rintro s s' name body body' rfl rfl - h h'
    exact Option.some.inj (h.symm.trans h')

def script : Request := ⟨GET, ⟨home.origin, ascii "/assets/a.js", []⟩, ascii "no-cors"⟩

theorem script_asset : one.AssetUrl script.url (bytes "assets/a.js") where
  path := by decide
  asset := by decide
  clean := by decide
  direct := by decide
  no_dir := by
    rintro s rfl
    decide

/-- A page's script, fetched once and kept. -/
theorem assets_genuine_one : ∃ w : Pool (List UInt8) home, Reachable one.net w ∧
    w.shared.get 0 script.url = some ⟨200, [1, 2]⟩ ∧
    w.task 0 = some (.respond bare script, .done (.ok (.answered ⟨200, [1, 2]⟩))) ∧
    one.Genuine (bytes "assets/a.js") ⟨200, [1, 2]⟩ ∧
    (one.Genuine (bytes "assets/a.js") ⟨200, [1, 2]⟩ ∨ (200 : Nat) = 404) := by
  have hn : one.net script ⟨200, [1, 2]⟩ := ⟨app, rfl, fun _ _ => rfl⟩
  have hr : Lts.Run (Step one.net) Pool.start _ _ := .cons (.start (i := 0) (.respond bare script) rfl) <|
    .cons (.answer (i := 0) rfl (.created rfl)) <| .cons (.answer (i := 0) rfl .matched) <|
    .cons (.answer (i := 0) rfl (.fetched hn)) <|
    .cons (.answer (i := 0) rfl (.stored (by decide) (by decide))) <| .nil _
  obtain ⟨hkept, -, hpage⟩ := assets_genuine ⟨Pool.start, _, rfl, hr⟩
  exact ⟨_, ⟨Pool.start, _, rfl, hr⟩, rfl, rfl, hkept 0 _ _ _ rfl script_asset,
    hpage 0 _ _ _ _ rfl (by decide) script_asset⟩

end Deployment

end Keyhole.Worker
