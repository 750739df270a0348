import Keyhole.Worker.Kept

/-!
# The shell offline

Once an install has come to its end, and until an activation deletes its
cache, the worker of that build answers every navigation, network or not, and
every precached asset without the network. An activation leaves no cache but
its own.
-/

namespace Keyhole.Worker
open Await Await.Proc
open Import (Text ascii)

variable {β : Type} {B : Browser} {net : Request → Response β → Prop}

/-! ## Names of caches -/

theorem lexLe_total (s t : Text) : (lexLe s t || lexLe t s) = true := by
  induction s generalizing t with
  | nil => rfl
  | cons a s ih =>
    cases t with
    | nil => rfl
    | cons b t =>
      by_cases h : a = b
      · subst h
        simpa [lexLe] using ih t
      · simp only [lexLe, if_neg h, if_neg (Ne.symm h), Bool.or_eq_true, decide_eq_true_eq]
        exact UInt16.le_total a b

theorem lexLe_trans (s t u : Text) (h : lexLe s t = true) (h' : lexLe t u = true) : lexLe s u = true := by
  induction s generalizing t u with
  | nil => rfl
  | cons a s ih =>
    cases t with
    | nil => cases h
    | cons b t =>
      cases u with
      | nil => cases h'
      | cons c u =>
        simp only [lexLe] at h h' ⊢
        by_cases hab : a = b
        · subst hab
          by_cases hac : a = c
          · subst hac
            simp only [if_true] at h h' ⊢
            exact ih t u h h'
          · simp only [if_neg hac] at h' ⊢
            exact h'
        · simp only [if_neg hab, decide_eq_true_eq] at h
          by_cases hbc : b = c
          · subst hbc
            simpa [if_neg hab] using h
          · simp only [if_neg hbc, decide_eq_true_eq] at h'
            have hlt : a < c := by
              have := UInt16.lt_iff_le_and_ne.mpr ⟨h, hab⟩
              exact UInt16.lt_of_lt_of_le this h'
            rw [if_neg (UInt16.ne_of_lt hlt), decide_eq_true_eq]
            exact UInt16.le_of_lt hlt

theorem lexLe_antisymm {s t : Text} (h : lexLe s t = true) (h' : lexLe t s = true) : s = t := by
  induction s generalizing t with
  | nil =>
    cases t with
    | nil => rfl
    | cons b t => cases h'
  | cons a s ih =>
    cases t with
    | nil => cases h
    | cons b t =>
      simp only [lexLe] at h h'
      by_cases hab : a = b
      · subst hab
        simp only [if_true] at h h'
        rw [ih h h']
      · simp only [if_neg hab, if_neg (Ne.symm hab), decide_eq_true_eq] at h h'
        exact absurd (UInt16.le_antisymm h h') hab

instance : Std.Total fun s t : Text => lexLe s t = true := ⟨fun s t => by simpa using lexLe_total s t⟩

instance : IsTrans Text fun s t => lexLe s t = true := ⟨lexLe_trans⟩

theorem sort_perm {names names' : List Text} (h : names.Perm names') : sort names = sort names' := by
  have hle : ∀ l : List Text, List.Pairwise (fun s t => lexLe s t = true) (sort l) := List.pairwise_insertionSort _
  refine List.Perm.eq_of_pairwise (fun _ _ _ _ => lexLe_antisymm) (hle names) (hle names') ?_
  exact (List.perm_insertionSort _ names).trans (h.trans (List.perm_insertionSort _ names').symm)

example : bare.CACHE = ascii "keyhole-shell-1uk6a76" := by decide +kernel

/-- The order in which the bundler names the files does not matter. -/
theorem precache_perm {b b' : Build B} (h : b.emitted.Perm b'.emitted) : b.PRECACHE = b'.PRECACHE := by
  unfold Build.PRECACHE buildPrecacheList
  rw [sort_perm (h.filter _)]

/-! ## What stays in the storage -/

def Undeleted (name : Text) (es : List (Event β B)) :
    Prop := ∀ i a, Await.Event.answer i (.delete name) (.ok a) ∉ es

theorem Undeleted.append {name : Text} {es fs : List (Event β B)} (he : Undeleted name es)
    (hf : Undeleted name fs) :
    Undeleted name (es ++ fs) :=
  fun i a hm => (List.mem_append.mp hm).elim (he i a) (hf i a)

theorem Undeleted.left {name : Text} {es fs : List (Event β B)} (h : Undeleted name (es ++ fs)) :
    Undeleted name es :=
  fun i a hm => h i a (List.mem_append_left fs hm)

theorem Undeleted.right {name : Text} {es fs : List (Event β B)} (h : Undeleted name (es ++ fs)) :
    Undeleted name fs :=
  fun i a hm => h i a (List.mem_append_right es hm)

section
variable {s s' : Storage β} {c : Cmd β} {a : Except Failure (Answer β c)}

theorem exec_get (h : Exec net s c a s') {cache : Nat} {u : Url} (hg : (s.get cache u).isSome = true) :
    (s'.get cache u).isSome = true := by
  cases h with
  | created hl => simpa using hg
  | deleted => simpa using hg
  | @stored put q response hl hq =>
    rcases Storage.get_store (s := s) put q.url response cache u with h | ⟨-, -, h⟩
    · rw [h]
      exact hg
    · rw [h]
      rfl
  | opened hl => exact hg
  | keys => exact hg
  | matched => exact hg
  | refused hq => exact hg
  | fetched hn => exact hg
  | offline => exact hg
  | failed hf => exact hg

theorem exec_lookup (h : Exec net s c a s') {name : Text} {cache : Nat}
    (hd : ∀ b, ¬ (⟨c, a⟩ : (c : Cmd β) × Except Failure (Answer β c)) = ⟨.delete name, .ok b⟩)
    (hl : s.lookup name = some cache) : s'.lookup name = some cache := by
  cases h with
  | @created name' hn =>
    rw [Storage.lookup_create]
    by_cases hne : name' = name
    · subst hne
      rw [hn] at hl
      cases hl
    · rw [if_neg hne]
      exact hl
  | @deleted name' =>
    rw [Storage.lookup_remove]
    by_cases hne : name' = name
    · subst hne
      exact absurd rfl (hd _)
    · rw [if_neg hne]
      exact hl
  | stored hc hq => exact hl
  | opened hl' => exact hl
  | keys => exact hl
  | matched => exact hl
  | refused hq => exact hl
  | fetched hn => exact hl
  | offline => exact hl
  | failed hf => exact hl

/-- A name that no cache has is given to one by opening it only. -/
theorem exec_lookup_none (h : Exec net s c a s') {name : Text}
    (ho : ∀ b, ¬ (⟨c, a⟩ : (c : Cmd β) × Except Failure (Answer β c)) = ⟨.openCache name, .ok b⟩)
    (hl : s.lookup name = none) : s'.lookup name = none := by
  cases h with
  | @created name' hn =>
    rw [Storage.lookup_create]
    by_cases hne : name' = name
    · subst hne
      exact absurd rfl (ho _)
    · rw [if_neg hne]
      exact hl
  | @deleted name' =>
    rw [Storage.lookup_remove]
    split
    · rfl
    · exact hl
  | stored hc hq => exact hl
  | opened hl' => exact hl
  | keys => exact hl
  | matched => exact hl
  | refused hq => exact hl
  | fetched hn => exact hl
  | offline => exact hl
  | failed hf => exact hl

end

/-- The cache `cache` of the build is there, with an answer for every file of its precache list. -/
def Holds (b : Build B) (cache : Nat) (s : Storage β) : Prop :=
  s.lookup b.CACHE = some cache ∧
    ∀ name ∈ b.PRECACHE, (s.get cache (B.resolve (urlFor SHELL_URL name))).isSome = true

theorem undeleted_ne {name : Text} {es : List (Event β B)} (hu : Undeleted name es) {i : Nat} {c : Cmd β}
    {a : Except Failure (Answer β c)} (hm : Await.Event.answer i c a ∈ es) (b : Bool) :
    ¬ (⟨c, a⟩ : (c : Cmd β) × Except Failure (Answer β c)) = ⟨.delete name, .ok b⟩ := by
  intro h
  cases h
  exact hu i b hm

theorem holds_keep {b : Build B} {cache : Nat} {es : List (Event β B)} (hu : Undeleted b.CACHE es) :
    ∀ i c a (s s' : Storage β), Await.Event.answer i c a ∈ es → Exec net s c a s' → Holds b cache s →
      Holds b cache s' :=
  fun _ _ _ _ _ hm hx hh => ⟨exec_lookup hx (undeleted_ne hu hm) hh.1, fun name hn => exec_get hx (hh.2 name hn)⟩

/-! ## An install -/

/-- What the answers of a run leave behind at its end. -/
def Leaves (b : Build B) (t : Storage β) : (c : Cmd β) → Except Failure (Answer β c) → Prop
  | .openCache name, .ok cache => name = b.CACHE → t.lookup name = some cache
  | .put cache q _, .ok _ => (t.get cache q.url).isSome = true
  | _, _ => True

theorem answered_leaves {w w' : Pool β B} {es : List (Event β B)} (h : Lts.Run (Step net) w es w') {b : Build B}
    (hu : Undeleted b.CACHE es) : Answered (Leaves b w'.shared) es := by
  intro i c a hm
  cases c with
  | openCache name =>
    cases a with
    | error e => trivial
    | ok cache =>
      rintro rfl
      refine lasting h (P := fun s => s.lookup b.CACHE = some cache) hm ?_ ?_
      · intro s s' hx
        cases hx with
        | opened hl => exact hl
        | created hl => rw [Storage.lookup_create, if_pos rfl]
      · exact fun i c a s s' hm hx hl => exec_lookup hx (undeleted_ne hu hm) hl
  | put cache q r =>
    cases a with
    | error e => trivial
    | ok _ =>
      refine lasting h (P := fun s => (s.get cache q.url).isSome = true) hm ?_ ?_
      · intro s s' hx
        cases hx with
        | stored hl hq =>
          rw [Storage.get_store_of_lt hl]
          rfl
      · exact fun i c a s s' _ hx hg => exec_get hx hg
  | keys => trivial
  | delete name => trivial
  | matchCache cache q => trivial
  | fetch q => trivial

theorem brings_precacheOne {b : Build B} {t : Storage β} (cache : Nat) (url : Text) :
    Brings (fun _ => True) (Leaves b t) ((t.get cache (B.resolve url)).isSome = true)
      (precacheOne B cache url) := by
  unfold precacheOne
  refine Meets.bind (P := fun _ => True) ?_ fun r _ => ?_
  · exact Meets.perform (c := Cmd.fetch _) trivial fun r _ => ⟨fun _ _ => trivial, by simp⟩
  by_cases hok : r.ok = true
  · rw [if_pos hok]
    refine Meets.perform (c := Cmd.put _ _ _) trivial fun a ha => ?_
    rintro rfl
    exact ha
  · rw [if_neg hok]
    exact Meets.throw fun h => by cases h

theorem meets_install {b : Build B} {t : Storage β} :
    (install b : Task β (Outcome β)).Meets (fun _ => True) (Leaves b t)
      (fun a => ∀ o, a = .ok o → ∃ cache, Holds b cache t) := by
  unfold install
  refine Meets.bind (P := fun cache => t.lookup b.CACHE = some cache) ?_ fun cache hl => ?_
  · refine Meets.perform (c := Cmd.openCache _) trivial fun a ha => ⟨?_, by simp⟩
    rintro cache rfl
    exact ha rfl
  refine Meets.bind (P := fun _ => ∀ name ∈ b.PRECACHE,
    (t.get cache (B.resolve (urlFor SHELL_URL name))).isSome = true)
    ?_ fun _ hg => Meets.pure fun o _ => ⟨cache, hl, hg⟩
  unfold precacheShell
  exact (brings_all fun name _ => brings_precacheOne cache (urlFor SHELL_URL name)).mono fun r hr =>
    ⟨fun _ h => hr h, by simp⟩

theorem installed_holds {w w' : Pool β B} {es : List (Event β B)} (h : Lts.Run (Step net) w es w') {i : Nat}
    {b : Build B} {o : Outcome β} (hi : w.task i = none) (hd : w'.task i = some (.install b, .done (.ok o)))
    (hu : Undeleted b.CACHE es) : ∃ cache, Holds b cache w'.shared := by
  have hw : OnCourse (fun _ => True) (Leaves b w'.shared) (fun _ a => ∀ o, a = .ok o →
    ∃ cache, Holds b cache w'.shared)
      (fun k j => k = i ∧ j = .install b) w.task := by
    rintro k j p ⟨rfl, -⟩ ht
    rw [hi] at ht
    cases ht
  refine run_onCourse ?_ h ((answered_leaves h hu).to _) hw i _ _ ⟨rfl, rfl⟩ hd o rfl
  rintro k j ⟨-, rfl⟩
  exact meets_install

/-! ## Answering pages -/

/-- A request the cache was filled for. -/
def Precached (b : Build B) (q : Request) : Prop :=
  q.method = GET ∧ ∃ name ∈ b.PRECACHE, q.url = B.resolve (urlFor SHELL_URL name)

theorem precached_shell (b : Build B) : Precached b (B.get SHELL_URL) :=
  ⟨rfl, ascii "index.html", List.mem_cons_self, congrArg B.resolve (if_pos rfl).symm⟩

/-- What a storage that holds the build's cache answers. -/
def Offers (b : Build B) (cache : Nat) : (c : Cmd β) → Except Failure (Answer β c) → Prop
  | .openCache name, .ok cache' => name = b.CACHE → cache' = cache
  | .matchCache cache' q, .ok found => cache' = cache → Precached b q → found ≠ none
  | .openCache _, .error e => e = .storage
  | .matchCache _ _, .error e => e = .storage
  | _, _ => True

theorem exec_offers {b : Build B} {cache : Nat} {s s' : Storage β} {c : Cmd β} {a : Except Failure (Answer β c)}
    (hs : Holds b cache s) (h : Exec net s c a s') : Offers b cache c a := by
  cases h with
  | opened hl =>
    rintro rfl
    exact Option.some.inj (hl.symm.trans hs.1)
  | created hl =>
    rintro rfl
    cases hl.symm.trans hs.1
  | @matched cache' q =>
    rintro rfl ⟨hq, name, hn, hu⟩ hm
    unfold Storage.matching at hm
    rw [if_pos hq, hu] at hm
    have := hs.2 name hn
    rw [hm] at this
    cases this
  | keys => trivial
  | deleted => trivial
  | stored hl hq => trivial
  | refused hq => trivial
  | fetched hn => trivial
  | offline => trivial
  | failed hf => cases c <;> first | exact rfl | trivial

/-- The page gets a response of which `R` holds. -/
def Shown (R : Response β → Prop) : Outcome β → Prop
  | .answered r => R r
  | _ => False

section
variable (net : Request → Response β → Prop) (w : Pool β B) (fs : List (Event β B)) (k : Nat)

/-- What the task `k` comes to satisfies `P`, unless a command of its own on the storage failed. -/
def Gives {α : Type} (P : α → Prop) (a : Except Failure α) : Prop :=
  (∃ r, a = .ok r ∧ P r) ∨ a = .error .storage ∧ ∃ c, Await.Event.answer k c (.error .storage) ∈ fs

/-- At some instant of the run this is what the cache had for the request. -/
def Found (cache : Nat) (q : Request) (found : Option (Response β)) : Prop :=
  During (Exec net) Job.body w fs fun s => s.matching cache q = found

/-- What the network answered, or, where it had no answer, what the cache had for the request, or else for the
shell. -/
def Navigated (cache : Nat) (q : Request) (r : Response β) : Prop :=
  Await.Event.answer k (.fetch q) (.ok r) ∈ fs ∨
    (∃ e, Await.Event.answer k (.fetch q) (.error e) ∈ fs) ∧
      (Found net w fs cache q (some r) ∨ Found net w fs cache q none ∧
        Found net w fs cache (B.get SHELL_URL) (some r))

/-- What the answers to the task `k` are known to be. -/
def Learns (b : Build B) (cache : Nat) (c : Cmd β) (a : Except Failure (Answer β c)) : Prop :=
  Offers b cache c a ∧ Gave (Exec net) Job.body w fs c a ∧ Await.Event.answer k c a ∈ fs

end

section
variable {w : Pool β B} {fs : List (Event β B)} {k : Nat} {b b' : Build B} {cache : Nat} {q : Request}

theorem found_of_gave {q : Request} {found : Option (Response β)}
    (h : Gave (Exec net) Job.body w fs (.matchCache cache q) (.ok found)) : Found net w fs cache q found := by
  refine h.mono fun s hs => ?_
  obtain ⟨s', hx⟩ := hs
  cases hx
  rfl

/-- The rules for a command, with what is said of its answers. -/
theorem meets_openCache {C : Cmd β → Prop} (hC : C (.openCache b.CACHE)) {Q : Except Failure Nat → Prop}
    (h : Q (.ok cache)) (he : (∃ c, Await.Event.answer k c (.error .storage) ∈ fs) → Q (.error .storage)) :
    (openCache b.CACHE : Task β Nat).Meets C (Learns net w fs k b cache) Q := by
  refine Meets.perform (c := Cmd.openCache _) hC fun a ha => ?_
  obtain ⟨ha, -, hm⟩ := ha
  cases a with
  | ok cache' => exact (ha rfl : cache' = cache) ▸ h
  | error e =>
    obtain rfl : e = .storage := ha
    exact he ⟨_, hm⟩

theorem meets_matchCache {C : Cmd β → Prop} {q : Request} (hC : C (.matchCache cache q))
    {Q : Except Failure (Option (Response β)) → Prop}
    (h : ∀ r, Found net w fs cache q (some r) → Q (.ok (some r)))
    (hn : ¬ Precached b q → Found net w fs cache q none → Q (.ok none))
    (he : (∃ c, Await.Event.answer k c (.error .storage) ∈ fs) → Q (.error .storage)) :
    (matchCache cache q : Task β _).Meets C (Learns net w fs k b cache) Q := by
  refine Meets.perform (c := Cmd.matchCache _ _) hC fun a ha => ?_
  obtain ⟨ha, hg, hm⟩ := ha
  cases a with
  | ok found =>
    cases found with
    | some r => exact h r (found_of_gave hg)
    | none => exact hn (fun hq => ha rfl hq rfl) (found_of_gave hg)
  | error e =>
    obtain rfl : e = .storage := ha
    exact he ⟨_, hm⟩

/-- What the handler answers is what the page gets. -/
theorem meets_respond {C : Cmd β → Prop} {R : Response β → Prop} (hb : b'.CACHE = b.CACHE)
    (ho : q.url.origin = B.origin) (hC : C (.openCache b.CACHE))
    (h : (handleRequest B q cache SHELL_URL : Task β (Response β)).Meets C (Learns net w fs k b cache)
      (Gives fs k R)) :
    (respond b' q : Task β (Outcome β)).Meets C (Learns net w fs k b cache) (Gives fs k (Shown R)) := by
  unfold respond
  rw [if_pos ho, hb]
  refine Meets.bind (P := (· = cache)) ?_ ?_
  · refine meets_openCache hC ⟨?_, by simp⟩ fun hf => ⟨by simp, ?_⟩
    · rintro cache' h
      cases h
      rfl
    · rintro e h
      cases h
      exact .inr ⟨rfl, hf⟩
  rintro cache' rfl
  refine Meets.bind (P := R) (h.mono fun a ha => ⟨?_, ?_⟩) fun r hr => Meets.pure (.inl ⟨_, rfl, hr⟩)
  · rintro r rfl
    rcases ha with ⟨r', h, hr⟩ | ⟨h, -⟩
    · cases h
      exact hr
    · cases h
  · rintro e rfl
    rcases ha with ⟨r, h, -⟩ | ⟨h, hf⟩
    · cases h
    · cases h
      exact .inr ⟨rfl, hf⟩

theorem meets_navigate (hr : route q = .networkFirst) :
    (handleRequest B q cache SHELL_URL : Task β (Response β)).Meets (fun _ => True) (Learns net w fs k b cache)
      (Gives fs k (Navigated net w fs k cache q)) := by
  unfold handleRequest
  rw [hr]
  refine Meets.catchWith (E := fun e => Await.Event.answer k (.fetch q) (.error e) ∈ fs) ?_ fun e he => ?_
  · refine Meets.perform (c := Cmd.fetch _) trivial fun a ha => ⟨?_, ?_⟩
    · rintro r rfl
      exact .inl ⟨r, rfl, .inl ha.2.2⟩
    · rintro e rfl
      exact ha.2.2
  have hstop : ∀ {α : Type} {P : α → Prop}, (∃ c, Await.Event.answer k c (.error .storage) ∈ fs) →
      (∀ a, (Except.error Failure.storage : Except Failure α) = .ok a → P a) ∧
        ∀ e, (Except.error Failure.storage : Except Failure α) = .error e →
          Gives fs k (Navigated net w fs k cache q) (.error e) :=
    fun hf => ⟨by simp, fun e h => by cases h; exact .inr ⟨rfl, hf⟩⟩
  have hcached : ∀ {r}, Found net w fs cache q (some r) ∨
      Found net w fs cache q none ∧ Found net w fs cache (B.get SHELL_URL) (some r) →
        Navigated net w fs k cache q r :=
    fun h => .inr ⟨⟨e, he⟩, h⟩
  refine Meets.bind (P := fun found => Found net w fs cache q found) ?_ fun found hf => ?_
  · refine meets_matchCache trivial (fun r hm => ⟨?_, by simp⟩) (fun _ hm => ⟨?_, by simp⟩) hstop
    · rintro found h
      cases h
      exact hm
    · rintro found h
      cases h
      exact hm
  refine Meets.bind (P := fun found => ∃ r, found = some r ∧ Navigated net w fs k cache q r) ?_ fun found hn => ?_
  · cases found with
    | some r => exact Meets.pure ⟨fun a h => by cases h; exact ⟨r, rfl, hcached (.inl hf)⟩, by simp⟩
    | none =>
      refine meets_matchCache trivial (fun r hm => ⟨fun a h => ?_, by simp⟩) ?_ hstop
      · cases h
        exact ⟨r, rfl, hcached (.inr ⟨hf, hm⟩)⟩
      · exact fun hn => absurd (precached_shell b) hn
  obtain ⟨r, rfl, hr⟩ := hn
  exact Meets.pure (.inl ⟨r, rfl, hr⟩)

theorem meets_asset (hr : route q = .cacheFirst) (hq : Precached b q) :
    (handleRequest B q cache SHELL_URL : Task β (Response β)).Meets (fun c => ∀ q', c ≠ .fetch q')
      (Learns net w fs k b cache) (Gives fs k fun r => Found net w fs cache q (some r)) := by
  unfold handleRequest
  rw [hr]
  refine Meets.bind (P := fun found => ∃ r, found = some r ∧ Found net w fs cache q (some r)) ?_ fun found hf => ?_
  · refine meets_matchCache (by simp) (fun r hm => ⟨?_, by simp⟩) ?_ fun hs => ⟨by simp, ?_⟩
    · exact fun a h => by cases h; exact ⟨r, rfl, hm⟩
    · exact fun hn => absurd hq hn
    · exact fun e h => by cases h; exact .inr ⟨rfl, hs⟩
  obtain ⟨r, rfl, hm⟩ := hf
  exact Meets.pure (.inl ⟨r, rfl, hm⟩)

end

/-- What holds of one task that is started and ended in a run along which the build's cache is held. -/
theorem responded {w w' : Pool β B} {fs : List (Event β B)} (h : Lts.Run (Step net) w fs w') {b b' : Build B}
    {cache : Nat} (hs : Holds b cache w.shared) (hu : Undeleted b.CACHE fs) {k : Nat} {q : Request}
    {a : Except Failure (Outcome β)} (hk : w.task k = none) (hd : w'.task k = some (.respond b' q, .done a))
    {C : Cmd β → Prop} {R : Response β → Prop}
    (hm : (respond b' q : Task β (Outcome β)).Meets C (Learns net w fs k b cache) (Gives fs k (Shown R))) :
    Gives fs k (Shown R) a ∧ ∀ c r, Await.Event.answer k c r ∈ fs → C c := by
  have hoffers : Answered (Offers b cache) fs :=
    answered_of_keeps h (holds_keep hu) hs fun s c r s' hs hx => exec_offers hs hx
  have hans : AnsweredTo (fun i j => i = k ∧ j = .respond b' q) (Learns net w fs k b cache) fs := by
    rintro i j c r ⟨rfl, -⟩ hm
    exact ⟨hoffers i c r hm, run_gave h i c r hm, hm⟩
  have hw : OnCourse C (Learns net w fs k b cache) (fun _ => Gives fs k (Shown R)) (fun i j => i = k ∧
    j = .respond b' q)
      w.task := by
    rintro i j p ⟨rfl, -⟩ ht
    rw [hk] at ht
    cases ht
  have hbody : ∀ i j, i = k ∧ j = .respond b' q →
      (Job.body j : Task β (Outcome β)).Meets C (Learns net w fs k b cache) (Gives fs k (Shown R)) := by
    rintro i j ⟨-, rfl⟩
    exact hm
  exact ⟨run_onCourse hbody h hans hw k _ _ ⟨rfl, rfl⟩ hd,
    fun c r hc => run_commands hbody h hans hw hd ⟨rfl, rfl⟩ hc⟩

theorem offline_shell {w w' w'' : Pool β B} {es fs : List (Event β B)} (h : Lts.Run (Step net) w es w')
    (h' : Lts.Run (Step net) w' fs w'') {b b' : Build B} {i k : Nat} {o : Outcome β} {q : Request}
    {a : Except Failure (Outcome β)} (hi : w.task i = none) (hd : w'.task i = some (.install b, .done (.ok o)))
    (hu : Undeleted b.CACHE (es ++ fs)) (hb : b'.emitted.Perm b.emitted) (ho : q.url.origin = B.origin)
    (hk : w'.task k = none) (ha : w''.task k = some (.respond b' q, .done a)) :
    ∃ cache, w'.shared.lookup b.CACHE = some cache ∧
      (route q = .networkFirst → Gives fs k (Shown (Navigated net w' fs k cache q)) a) ∧
      (route q = .cacheFirst → Precached b q →
        Gives fs k (Shown fun r => Found net w' fs cache q (some r)) a ∧
          ∀ q' r, Await.Event.answer k (.fetch q') r ∉ fs) := by
  obtain ⟨cache, hs⟩ := installed_holds h hi hd hu.left
  have hc : b'.CACHE = b.CACHE := congrArg cacheName (precache_perm hb)
  refine ⟨cache, hs.1, fun hr => ?_, fun hr hq => ?_⟩
  · exact (responded h' hs hu.right hk ha (meets_respond hc ho trivial (meets_navigate hr))).1
  · obtain ⟨hans, hcmd⟩ := responded h' hs hu.right hk ha (meets_respond hc ho (by simp) (meets_asset hr hq))
    exact ⟨hans, fun q' r hm => hcmd _ _ hm q' rfl⟩

def visit : Request := ⟨GET, ⟨home.origin, ascii "/enroll/token", []⟩, ascii "navigate"⟩

def stocked : Storage Nat := (Storage.empty.create bare.CACHE).store 0 (home.resolve SHELL_URL) ⟨200, 7⟩

theorem bare_installed : ∃ (w : Pool Nat home) (es : List (Event Nat home)), Lts.Run (Step alive) Pool.start es w ∧
    Undeleted bare.CACHE es ∧ w.shared = stocked ∧ w.task 0 = some (.install bare, .done (.ok .finished)) ∧
    w.task 1 = none :=
  ⟨_, _, .cons (Await.Step.start (i := 0) (.install bare) rfl) <| .cons (.answer (i := 0) rfl (.created rfl)) <|
    .cons (.answer (i := 0) rfl (.fetched rfl)) <|
    .cons (.answer (i := 0) rfl (.stored (by decide) (by decide))) <| .nil _, by simp [Undeleted], rfl, rfl, rfl⟩

/-- A deep link opened offline after an install: the shell. -/
theorem offline_shell_bare : ∃ (w : Pool Nat home) (fs : List (Event Nat home)),
    w.shared.get 0 (home.resolve SHELL_URL) = some ⟨200, 7⟩ ∧
    (∀ r, Await.Event.answer 1 (.fetch visit) (.ok r) ∉ fs) ∧
    ∃ cache, w.shared.lookup bare.CACHE = some cache ∧
      Gives fs 1 (Shown (Navigated alive w fs 1 cache visit)) (.ok (.answered ⟨200, 7⟩)) := by
  obtain ⟨⟨shared, task⟩, es, hi, hu, hs, hd, hk⟩ := bare_installed
  cases hs
  have hv : Lts.Run (Step alive) ⟨stocked, task⟩ _ _ := .cons (.start (i := 1) (.respond bare visit) hk) <|
    .cons (.answer (i := 1) rfl (.opened rfl)) <| .cons (.answer (i := 1) rfl .offline) <|
    .cons (.answer (i := 1) rfl .matched) <| .cons (.answer (i := 1) rfl .matched) <| .nil _
  obtain ⟨cache, hc, hn, -⟩ := offline_shell hi hv rfl hd (hu.append (by simp [Undeleted])) (.refl _) rfl hk rfl
  exact ⟨⟨stocked, task⟩, _, rfl, by simp, cache, hc, hn (by decide)⟩

/-! ## An activation -/

def OpensOnly (name : Text) (es : List (Event β B)) : Prop :=
  ∀ j name' cache, Await.Event.answer j (.openCache name') (.ok cache) ∈ es → name' = name

/-- What the answers to an activation's commands leave at the end. -/
def Clears (b : Build B) (t : Storage β) : (c : Cmd β) → Except Failure (Answer β c) → Prop
  | .keys, .ok names => ∀ name, name ≠ b.CACHE → t.lookup name ≠ none → name ∈ names
  | .delete name, .ok _ => name ≠ b.CACHE → t.lookup name = none
  | _, _ => True

theorem mem_names {s : Storage β} {name : Text} (h : name ∉ s.names.rows.map Prod.fst) : s.lookup name = none := by
  unfold Storage.lookup
  rw [Option.map_eq_none_iff, Sql.Table.get?_eq_none]
  exact fun r hr hn => h (List.mem_map.mpr ⟨r, hr, hn⟩)

theorem answered_clears {w w' : Pool β B} {es : List (Event β B)} (h : Lts.Run (Step net) w es w') {b : Build B}
    (ho : OpensOnly b.CACHE es) :
    Answered (Clears b w'.shared) es := by
  have hkeep : ∀ name, name ≠ b.CACHE → ∀ i c a (s s' : Storage β), Await.Event.answer i c a ∈ es →
      Exec net s c a s' → s.lookup name = none → s'.lookup name = none := by
    intro name hn i c a s s' hm hx hl
    refine exec_lookup_none hx ?_ hl
    intro cache heq
    cases heq
    exact hn (ho i name cache hm)
  intro i c a hm
  cases c with
  | keys =>
    cases a with
    | error e => trivial
    | ok names =>
      intro name hn hl
      by_contra hmem
      refine hl (lasting h (P := fun s => s.lookup name = none) hm ?_ (hkeep name hn))
      intro s s' hx
      cases hx
      exact mem_names hmem
  | delete name =>
    cases a with
    | error e => trivial
    | ok was =>
      intro hn
      refine lasting h (P := fun s => s.lookup name = none) hm ?_ (hkeep name hn)
      intro s s' hx
      cases hx
      rw [Storage.lookup_remove, if_pos rfl]
  | openCache name => trivial
  | put cache q r => trivial
  | matchCache cache q => trivial
  | fetch q => trivial

theorem clears_deleteOne {b : Build B} {t : Storage β} {name : Text} (hn : name ≠ b.CACHE) :
    Brings (fun c => ∀ name, c = .delete name → name ≠ b.CACHE) (Clears b t) (t.lookup name = none)
      (deleteOne name : Task β Unit) := by
  refine Meets.bind (P := fun _ => t.lookup name = none) ?_ fun _ h => Meets.pure fun _ => h
  refine Meets.perform (c := Cmd.delete _) ?_ fun a ha => ⟨?_, by simp⟩
  · rintro name' h
    cases h
    exact hn
  · rintro was rfl
    exact ha hn

theorem clears_activate {b : Build B} {t : Storage β} :
    (activate b : Task β (Outcome β)).Meets (fun c => ∀ name, c = .delete name → name ≠ b.CACHE) (Clears b t)
      fun a => ∀ o, a = .ok o → ∀ name, t.lookup name ≠ none → name = b.CACHE := by
  unfold activate
  refine Meets.bind (P := fun _ => ∀ name, t.lookup name ≠ none → name = b.CACHE) ?_ fun _ h =>
    Meets.pure fun _ _ => h
  unfold deleteStaleCaches
  refine Meets.bind (P := fun names => ∀ name, name ≠ b.CACHE → t.lookup name ≠ none → name ∈ names) ?_ ?_
  · refine Meets.perform (c := Cmd.keys) (by simp) fun a ha => ⟨?_, by simp⟩
    rintro names rfl
    exact ha
  intro names hnames
  have hgone : ∀ name ∈ names.filter (· ≠ b.CACHE), name ≠ b.CACHE :=
    fun name hn => by simpa using (List.mem_filter.mp hn).2
  refine (brings_all fun name hn => clears_deleteOne (hgone name hn)).mono fun r hr =>
    ⟨fun _ hok name hl => ?_, by simp⟩
  by_contra hne
  exact hl (hr hok name (List.mem_filter.mpr ⟨hnames name hne hl, by simpa using hne⟩))

theorem activated_only {w w' : Pool β B} {es : List (Event β B)} (h : Lts.Run (Step net) w es w') {b : Build B}
    {i : Nat} {o : Outcome β} (hi : w.task i = none) (hd : w'.task i = some (.activate b, .done (.ok o)))
    (ho : OpensOnly b.CACHE es) :
    (∀ name, w'.shared.lookup name ≠ none → name = b.CACHE) ∧
      ∀ name r, Await.Event.answer i (.delete name) r ∈ es → name ≠ b.CACHE := by
  have hans := answered_clears h ho
  have hw : OnCourse (fun c => ∀ name, c = .delete name → name ≠ b.CACHE) (Clears b w'.shared)
      (fun _ a => ∀ o, a = .ok o → ∀ name, w'.shared.lookup name ≠ none → name = b.CACHE)
      (fun k j => k = i ∧ j = .activate b) w.task := by
    rintro k j p ⟨rfl, -⟩ ht
    rw [hi] at ht
    cases ht
  have hbody : ∀ k j, k = i ∧ j = .activate b →
      (Job.body j : Task β (Outcome β)).Meets (fun c => ∀ name, c = .delete name → name ≠ b.CACHE)
        (Clears b w'.shared) fun a => ∀ o, a = .ok o → ∀ name, w'.shared.lookup name ≠ none →
          name = b.CACHE := by
    rintro k j ⟨-, rfl⟩
    exact clears_activate
  exact ⟨run_onCourse hbody h (hans.to _) hw i _ _ ⟨rfl, rfl⟩ hd o rfl,
    fun name r hm => run_commands hbody h (hans.to _) hw hd ⟨rfl, rfl⟩ hm name rfl⟩

/-- A cache of an earlier build, deleted. -/
theorem activated_only_bare : ∃ w : Pool Nat home, w.shared.lookup (ascii "old-shell") = none ∧
    ∀ name, w.shared.lookup name ≠ none → name = bare.CACHE := by
  obtain ⟨w, es, hr, hd, ho, hl⟩ : ∃ (w : Pool Nat home) (es : List (Event Nat home)),
      Lts.Run (Step alive) ⟨Storage.empty.create (ascii "old-shell"), fun _ => none⟩ es w ∧
      w.task 0 = some (.activate bare, .done (.ok .finished)) ∧
      OpensOnly bare.CACHE es ∧
      w.shared.lookup (ascii "old-shell") = none :=
    ⟨_, _, .cons (.start (i := 0) (.activate bare) rfl) <| .cons (.answer (i := 0) rfl .keys) <|
      .cons (.answer (i := 0) (c := Cmd.delete (ascii "old-shell")) rfl .deleted) <|
        .nil _, rfl, by simp [OpensOnly], rfl⟩
  exact ⟨w, hl, (activated_only hr rfl hd ho).1⟩

end Keyhole.Worker
