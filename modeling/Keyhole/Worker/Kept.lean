import Keyhole.Worker.Handler

/-!
# What the service worker keeps

No interleaving of installs, activations and requests puts anything of the API
into a cache: what a cache holds is what the network answered for the shell or
for an asset, and nothing but the network answers a request to the API.
-/

namespace Keyhole.Worker
open Await Await.Proc
open Import (Text ascii)

/-! ## The cache storage, written to -/

namespace Storage

variable {β : Type} {s : Storage β}

theorem lookup_create (name name' : Text) :
    (s.create name).lookup name' = if name = name' then some s.caches.length else s.lookup name' := by
  unfold lookup create
  rw [Sql.Table.get?_upsert]
  by_cases h : name = name'
  · simp [h]
  · simp [h]

theorem lookup_remove (name name' : Text) :
    (s.remove name).lookup name' = if name = name' then none else s.lookup name' := by
  unfold lookup remove
  rw [Sql.Table.get?_delete_key]
  by_cases h : name = name'
  · simp [h]
  · simp [h]

@[simp] theorem get_remove (name : Text) (cache : Nat) (u : Url) :
    (s.remove name).get cache u = s.get cache u := rfl

@[simp] theorem lookup_store (cache : Nat) (u : Url) (r : Response β) (name : Text) :
    (s.store cache u r).lookup name = s.lookup name := rfl

@[simp] theorem get_create (name : Text) (cache : Nat) (u : Url) : (s.create name).get cache u = s.get cache u := by
  unfold get create
  by_cases h : cache < s.caches.length
  · simp [List.getElem?_append_left h]
  · by_cases h' : cache = s.caches.length
    · subst h'
      simp
      rfl
    · have hn : (s.caches ++ [(∅ : Cache β)])[cache]? = none := by
        rw [List.getElem?_eq_none_iff, List.length_append, List.length_singleton]
        omega
      rw [hn, List.getElem?_eq_none (Nat.not_lt.mp h)]

theorem get_store_of_lt {cache : Nat} (h : cache < s.caches.length) (u : Url) (r : Response β) :
    (s.store cache u r).get cache u = some r := by
  unfold get store
  simp [h, Sql.Table.get?_upsert]

theorem get_store (cache : Nat) (u : Url) (r : Response β) (cache' : Nat) (u' : Url) :
    (s.store cache u r).get cache' u' = s.get cache' u' ∨
      cache' = cache ∧ u' = u ∧ (s.store cache u r).get cache' u' = some r := by
  by_cases hc : cache' = cache
  · subst hc
    by_cases hl : cache' < s.caches.length
    · by_cases hu : u' = u
      · subst hu
        exact .inr ⟨rfl, rfl, get_store_of_lt hl u' r⟩
      · refine .inl ?_
        unfold get store
        simp [hl, Sql.Table.get?_upsert, Ne.symm hu]
    · refine .inl ?_
      unfold get store
      simp [List.getElem?_eq_none (Nat.not_lt.mp hl)]
  · refine .inl ?_
    unfold get store
    simp [Ne.symm hc]

end Storage

/-! ## What may be kept -/

def Api (u : Url) : Prop := u.pathname = ascii "/api" ∨ ascii "/api/" <+: u.pathname

/-- The shell and the assets, as the network gave them. -/
structure Kept {β : Type} (B : Browser) (net : Request → Response β → Prop) (u : Url) (r : Response β) :
    Prop where
  ok : r.ok = true
  asked : ∃ q : Request, q.url = u ∧ net q r
  own : u.origin = B.origin
  shell : u = B.resolve SHELL_URL ∨ ascii "/assets/" <+: u.pathname

theorem route_eq_bypass {q : Request} : route q = .bypass ↔ Api q.url := by
  unfold route Api
  by_cases h : q.url.pathname = ascii "/api" ∨ ascii "/api/" <+: q.url.pathname
  · simp [h]
  · rw [if_neg h]
    simp only [h, iff_false]
    split
    · simp
    · split <;> simp

theorem route_eq_cacheFirst {q : Request} (h : route q = .cacheFirst) : ascii "/assets/" <+: q.url.pathname := by
  unfold route at h
  split at h
  · cases h
  · split at h
    · cases h
    · split at h
      · assumption
      · cases h

theorem route_eq_networkFirst {q : Request} (h : route q = .networkFirst) : q.mode = ascii "navigate" := by
  unfold route at h
  split at h
  · cases h
  · split at h
    · assumption
    · split at h <;> cases h

section
variable {β : Type} {B : Browser} {net : Request → Response β → Prop}

theorem Kept.not_api {u : Url} {r : Response β} (h : Kept B net u r) : ¬ Api u := by
  rcases h.shell with rfl | ha
  · unfold Api SHELL_URL
    rw [B.root]
    decide
  · obtain ⟨t, ht⟩ := ha
    unfold Api
    rw [← ht]
    rintro (hp | ⟨t', hp⟩)
    · have := congrArg (·[2]?) hp
      simp [ascii] at this
    · have := congrArg (·[2]?) hp
      simp [ascii] at this

theorem mem_precache {b : Build B} {name : Text} (h : name ∈ b.PRECACHE) :
    name = ascii "index.html" ∨ name ∈ b.emitted ∧ ascii "assets/" <+: name := by
  unfold Build.PRECACHE buildPrecacheList sort at h
  rcases List.mem_cons.mp h with rfl | h
  · exact .inl rfl
  · rw [List.mem_insertionSort, List.mem_filter, List.isPrefixOf_iff_prefix] at h
    exact .inr h

theorem shell_of_precache {b : Build B} {name : Text} (h : name ∈ b.PRECACHE) :
    B.resolve (urlFor SHELL_URL name) = B.resolve SHELL_URL ∨
      ascii "/assets/" <+: (B.resolve (urlFor SHELL_URL name)).pathname := by
  unfold urlFor
  by_cases hn : name = ascii "index.html"
  · rw [if_pos hn]
    exact .inl rfl
  · rw [if_neg hn]
    obtain ⟨he, hp⟩ := (mem_precache h).resolve_left hn
    exact .inr (b.within name he hp)

theorem own_of_precache {b : Build B} {name : Text} (h : name ∈ b.PRECACHE) :
    (B.resolve (urlFor SHELL_URL name)).origin = B.origin := by
  unfold urlFor
  by_cases hn : name = ascii "index.html"
  · rw [if_pos hn]
    exact B.same_origin (by decide)
  · rw [if_neg hn]
    obtain ⟨t, rfl⟩ := ((mem_precache h).resolve_left hn).2
    exact B.same_origin rfl

/-! ## One command -/

variable (B net) in
def Clean (s : Storage β) : Prop := ∀ cache u r, s.get cache u = some r → Kept B net u r

variable (B net) in
def Allowed : Cmd β → Prop
  | .put _ q r => Kept B net q.url r
  | _ => True

variable (B net) in
/-- What an answer says of its command. -/
def Told : (c : Cmd β) → Except Failure (Answer β c) → Prop
  | .fetch q, .ok r => net q r
  | .matchCache _ q, .ok (some r) => Kept B net q.url r
  | _, _ => True

theorem exec_clean {s s' : Storage β} {c : Cmd β} {a : Except Failure (Answer β c)} (hs : Clean B net s)
    (hc : Allowed B net c) (h : Exec net s c a s') : Told B net c a ∧ Clean B net s' := by
  cases h with
  | opened hl => exact ⟨trivial, hs⟩
  | created hl => exact ⟨trivial, fun cache u r hr => hs cache u r (by simpa using hr)⟩
  | keys => exact ⟨trivial, hs⟩
  | deleted => exact ⟨trivial, fun cache u r hr => hs cache u r (by simpa using hr)⟩
  | @matched cache q =>
    refine ⟨?_, hs⟩
    cases hm : s.matching cache q with
    | none => trivial
    | some r =>
      unfold Storage.matching at hm
      split at hm
      · exact hs _ _ _ hm
      · cases hm
  | @stored put q response hl hq =>
    refine ⟨trivial, fun cache u r hr => ?_⟩
    rcases Storage.get_store (s := s) put q.url response cache u with hg | ⟨-, rfl, hg⟩
    · exact hs cache u r (hg ▸ hr)
    · cases hg.symm.trans hr
      exact hc
  | refused hq => exact ⟨trivial, hs⟩
  | fetched hn => exact ⟨hn, hs⟩
  | offline => exact ⟨trivial, hs⟩
  | failed hf =>
    refine ⟨?_, hs⟩
    cases c <;> trivial

/-! ## The jobs -/

variable (B net) in
/-- Where an answer to a page comes from. -/
def Source (q : Request) (r : Response β) : Prop :=
  net q r ∨ route q = .cacheFirst ∧ Kept B net q.url r ∨
    route q = .networkFirst ∧ (Kept B net q.url r ∨ Kept B net (B.resolve SHELL_URL) r)

variable (B net) in
abbrev Fine {α : Type} (Q : Except Failure α → Prop) (p : Task β α) :
    Prop := p.Meets (Allowed B net) (Told B net) Q

theorem fine_fetch (q : Request) {Q : Except Failure (Response β) → Prop} (h : ∀ r, net q r → Q (.ok r))
    (he : ∀ e, Q (.error e)) : Fine B net Q (fetch q) := by
  refine Meets.perform trivial fun r hr => ?_
  cases r with
  | ok r => exact h r hr
  | error e => exact he e

theorem fine_matchCache (cache : Nat) (q : Request) {Q : Except Failure (Option (Response β)) → Prop}
    (h : ∀ r, Kept B net q.url r → Q (.ok (some r))) (hn : Q (.ok none)) (he : ∀ e, Q (.error e)) :
    Fine B net Q (matchCache cache q) := by
  refine Meets.perform trivial fun r hr => ?_
  cases r with
  | ok r =>
    cases r with
    | some r => exact h r hr
    | none => exact hn
  | error e => exact he e

theorem fine_put (cache : Nat) {q : Request} {r : Response β} (hk : Kept B net q.url r) :
    Fine B net (fun _ => True) (put cache q r) :=
  Meets.perform hk fun _ _ => trivial

theorem fine_cacheFirst {q : Request} (hr : route q = .cacheFirst) (ho : q.url.origin = B.origin) (cache : Nat) :
    Fine B net (fun a => ∀ r, a = .ok r → Source B net q r) (handleRequest B q cache SHELL_URL) := by
  unfold handleRequest
  rw [hr]
  refine Meets.bind (P := fun found => ∀ r, found = some r → Kept B net q.url r) ?_ fun found hf => ?_
  · refine fine_matchCache cache q (fun r hk => ⟨?_, by simp⟩) ⟨by simp, by simp⟩ fun e =>
      ⟨by simp, by simp⟩
    rintro a h r' rfl
    cases h
    exact hk
  cases found with
  | some r =>
    refine Meets.pure ?_
    rintro r' h
    cases h
    exact .inr (.inl ⟨hr, hf r rfl⟩)
  | none =>
    refine Meets.bind (P := fun r => net q r) ?_ fun r hn => ?_
    · exact fine_fetch q (fun r hn => ⟨fun a h => by cases h; exact hn, by simp⟩) fun e => ⟨by simp, by simp⟩
    have hsrc : ∀ r', (Except.ok r : Except Failure (Response β)) = .ok r' → Source B net q r' := by
      rintro r' h
      cases h
      exact .inl hn
    by_cases hok : r.ok = true
    · rw [if_pos hok]
      refine Meets.bind (P := fun _ => True) ?_ fun _ _ => Meets.pure hsrc
      exact (fine_put cache ⟨hok, ⟨q, rfl, hn⟩, ho, .inr (route_eq_cacheFirst hr)⟩).mono fun r _ =>
        ⟨fun _ _ => trivial, by simp⟩
    · rw [if_neg hok]
      exact Meets.pure hsrc

theorem fine_networkFirst {q : Request} (hr : route q = .networkFirst) (cache : Nat) :
    Fine B net (fun a => ∀ r, a = .ok r → Source B net q r) (handleRequest B q cache SHELL_URL) := by
  unfold handleRequest
  rw [hr]
  refine Meets.catchWith (E := fun _ => True) ?_ fun e _ => ?_
  · refine fine_fetch q (fun r hn => ⟨?_, by simp⟩) fun e => ⟨by simp, by simp⟩
    rintro a h r' h'
    cases h
    cases h'
    exact .inl hn
  have hkept : ∀ {r : Response β}, Kept B net q.url r ∨ Kept B net (B.resolve SHELL_URL) r → Source B net q r :=
    fun h => .inr (.inr ⟨hr, h⟩)
  refine Meets.bind (P := fun found => ∀ r, found = some r → Source B net q r) ?_ fun found hf => ?_
  · refine fine_matchCache cache q (fun r hk => ⟨?_, by simp⟩) ⟨by simp, by simp⟩ fun e =>
      ⟨by simp, by simp⟩
    rintro a h r' rfl
    cases h
    exact hkept (.inl hk)
  refine Meets.bind (P := fun found => ∀ r, found = some r → Source B net q r) ?_ fun found hf => ?_
  · cases found with
    | some r => exact Meets.pure ⟨fun a h => by cases h; exact hf, by simp⟩
    | none =>
      refine fine_matchCache cache _ (fun r hk => ⟨?_, by simp⟩) ⟨by simp, by simp⟩ fun e =>
        ⟨by simp, by simp⟩
      rintro a h r' rfl
      cases h
      exact hkept (.inr hk)
  cases found with
  | some r =>
    refine Meets.pure ?_
    rintro r' h
    cases h
    exact hf r rfl
  | none => exact Meets.throw (by simp)

theorem fine_handleRequest {q : Request} (ho : q.url.origin = B.origin) (cache : Nat) :
    Fine B net (fun a => ∀ r, a = .ok r → Source B net q r) (handleRequest B q cache SHELL_URL) := by
  have hnet : Fine B net (fun a => ∀ r, a = .ok r → Source B net q r) (fetch q) := by
    refine fine_fetch q ?_ (by simp)
    rintro r hn r' h
    cases h
    exact .inl hn
  cases hr : route q with
  | cacheFirst => exact fine_cacheFirst hr ho cache
  | networkFirst => exact fine_networkFirst hr cache
  | bypass =>
    unfold handleRequest
    rw [hr]
    exact hnet
  | network =>
    unfold handleRequest
    rw [hr]
    exact hnet

theorem fine_precacheOne (cache : Nat) {url : Text} (ho : (B.resolve url).origin = B.origin)
    (hs : B.resolve url = B.resolve SHELL_URL ∨ ascii "/assets/" <+: (B.resolve url).pathname) :
    Brings (Allowed B net) (Told B net) True (precacheOne B cache url) := by
  unfold precacheOne
  refine Meets.bind (P := fun r => net (B.get url) r) ?_ fun r hn => ?_
  · exact fine_fetch _ (fun r hn => ⟨fun a h => by cases h; exact hn, by simp⟩) fun e => ⟨by simp, by simp⟩
  by_cases hok : r.ok = true
  · rw [if_pos hok]
    exact (fine_put cache ⟨hok, ⟨B.get url, rfl, hn⟩, ho, hs⟩).mono fun _ _ _ => trivial
  · rw [if_neg hok]
    exact Meets.throw fun h => by cases h

theorem brings_deleteOne (name : Text) : Brings (Allowed B net) (Told B net) True (deleteOne name : Task β Unit) :=
  Meets.bind (P := fun _ => True) (Meets.perform trivial fun r _ => ⟨fun _ _ => trivial, by simp⟩)
    fun _ _ => Meets.pure fun _ => trivial

variable (net) in
/-- What an answered page was answered with. -/
def Outcomes : Job B → Except Failure (Outcome β) → Prop
  | .respond _ q, a => ∀ r, a = .ok (.answered r) → Source B net q r
  | _, _ => True

theorem fine_body (j : Job B) : j.body.Meets (Allowed B net) (Told B net) (Outcomes net j) := by
  have hunit : ∀ {j : Job B} (p : Task β Unit), Brings (Allowed B net) (Told B net) True p →
    (∀ a, Outcomes net j a) →
      (do p; pure .finished : Task β (Outcome β)).Meets (Allowed B net) (Told B net) (Outcomes net j) :=
    fun p hp hj => Meets.bind (P := fun _ => True) (hp.mono fun _ _ => ⟨fun _ _ => trivial, fun _ _ => hj _⟩)
      fun _ _ => Meets.pure (hj _)
  cases j with
  | install b =>
    refine Meets.bind (P := fun _ => True)
      (Meets.perform trivial fun r _ => ⟨fun _ _ => trivial, fun _ _ => trivial⟩) ?_
    intro cache _
    refine hunit _ ?_ fun _ => trivial
    exact (brings_all fun name hn => fine_precacheOne cache (own_of_precache hn) (shell_of_precache hn)).mono
      fun _ _ _ => trivial
  | activate b =>
    refine hunit _ ?_ fun _ => trivial
    refine Meets.bind (P := fun _ => True) (Meets.perform trivial fun r _ => ⟨fun _ _ => trivial, by simp⟩) ?_
    exact fun names _ => (brings_all fun name _ => brings_deleteOne name).mono fun _ _ _ => trivial
  | respond b q =>
    change Meets _ _ _ (Worker.respond b q)
    unfold Worker.respond
    by_cases ho : q.url.origin = B.origin
    · rw [if_pos ho]
      refine Meets.bind (P := fun _ => True)
        (Meets.perform trivial fun r _ => ⟨fun _ _ => trivial, fun _ _ _ h => by cases h⟩) ?_
      intro cache _
      refine Meets.bind (P := fun r => Source B net q r)
        ((fine_handleRequest ho cache).mono fun a ha => ⟨ha, fun _ _ _ h => by cases h⟩) ?_
      intro r hr
      refine Meets.pure ?_
      rintro r' h
      cases h
      exact hr
    · rw [if_neg ho]
      exact Meets.pure fun r h => by cases h

/-! ## Every run -/

theorem reachable_clean {w : Pool β B} (h : Reachable net w) :
    Clean B net w.shared ∧ OnCourse (Allowed B net) (Told B net) (Outcomes net) (fun _ _ => True) w.task := by
  obtain ⟨s, es, rfl, hr⟩ := h
  refine run_inv fine_body (I := Clean B net) (fun s c r s' hs hc hx => exec_clean hs hc hx) hr ?_ ?_
  · intro cache u r hg
    simp [Pool.start, Storage.empty, Storage.get] at hg
  · intro i j p _ ht
    cases ht

theorem no_api_kept {w : Pool β B} (h : Reachable net w) :
    (∀ cache u r, w.shared.get cache u = some r →
      ¬ Api u ∧ (u = B.resolve SHELL_URL ∨ ascii "/assets/" <+: u.pathname) ∧ u.origin = B.origin ∧
        r.ok = true ∧
        ∃ q : Request, q.url = u ∧ net q r) ∧
    ∀ i b q r, w.task i = some (.respond b q, .done (.ok (.answered r))) → Api q.url → net q r := by
  obtain ⟨hs, hw⟩ := reachable_clean h
  refine ⟨fun cache u r hg => ?_, fun i b q r ht hq => ?_⟩
  · have hk := hs cache u r hg
    exact ⟨hk.not_api, hk.shell, hk.own, hk.ok, hk.asked⟩
  · have hsrc := hw i _ _ trivial ht r rfl
    have hroute := route_eq_bypass.mpr hq
    rcases hsrc with hn | ⟨hc, -⟩ | ⟨hc, -⟩
    · exact hn
    · cases hroute.symm.trans hc
    · cases hroute.symm.trans hc

end

/-! ## A build of the shell alone -/

def home : Browser where
  origin := ascii "https://vault.example"
  resolve s := ⟨ascii "https://vault.example", s, []⟩
  same_origin _ := rfl
  root := rfl

def bare : Build home := ⟨[ascii "index.html"], by simp [ascii]⟩

def alive : Request → Response Nat → Prop := fun _ r => r = ⟨200, 7⟩

def sync : Request := ⟨GET, ⟨home.origin, ascii "/api/sync", []⟩, ascii "cors"⟩

/-- An install to its end, and a page that syncs after it. -/
theorem no_api_kept_bare : ∃ w : Pool Nat home, Reachable alive w ∧
    w.shared.get 0 (home.resolve SHELL_URL) = some ⟨200, 7⟩ ∧ ¬ Api (home.resolve SHELL_URL) ∧
    w.task 1 = some (.respond bare sync, .done (.ok (.answered ⟨200, 7⟩))) ∧ alive sync ⟨200, 7⟩ := by
  obtain ⟨w, hr, hg, ht⟩ : ∃ w : Pool Nat home, Reachable alive w ∧
      w.shared.get 0 (home.resolve SHELL_URL) = some ⟨200, 7⟩ ∧
      w.task 1 = some (.respond bare sync, .done (.ok (.answered ⟨200, 7⟩))) := by
    have hr : Lts.Run (Step alive) Pool.start _ _ := .cons (.start (i := 0) (.install bare) rfl) <|
      .cons (.answer (i := 0) rfl (.created rfl)) <| .cons (.answer (i := 0) rfl (.fetched rfl)) <|
      .cons (.answer (i := 0) rfl (.stored (by decide) (by decide))) <|
        .cons (.start (i := 1) (.respond bare sync) rfl) <|
      .cons (.answer (i := 1) rfl (.opened rfl)) <| .cons (.answer (i := 1) rfl (.fetched rfl)) <| .nil _
    exact ⟨_, ⟨Pool.start, _, rfl, hr⟩, rfl, rfl⟩
  have h := no_api_kept hr
  exact ⟨w, hr, hg, (h.1 _ _ _ hg).1, ht, h.2 _ _ _ _ ht (.inr (by decide))⟩

end Keyhole.Worker
