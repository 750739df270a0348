import Keyhole.Client.Tab

/-!
# What a lock leaves behind

A lock clears the session and the store. What was under way goes on, and
writes where it would have written.
-/

namespace Keyhole.Client.Tab
open Sql Store Vault

variable {K P : Type} {S : Sealing K} {C : Crypto K P} {zero : K}

/-- No token, no key, and nothing decrypted. -/
structure Bare (w : World K P) : Prop where
  tokens : w.memory.session.tokens = none
  userKey : w.memory.session.userKey = none
  privateKey : w.memory.session.privateKey = none
  collectionKeys : w.memory.session.collectionKeys = ∅
  items : ∀ record ∈ w.store.items, record.plaintext = none
  folders : ∀ record ∈ w.store.folders, record.name = none
  collections : w.store.collections = []

namespace World

/-- An operation that writes into a locked tab has nothing to write there. -/
def settles (w : World K P) : Event K → Bool
  | .refreshed _ _ | .created _ => w.memory.session.isUnlocked
  | .resumed i =>
    w.memory.session.isUnlocked ||
    match w.calls i with
    | .adopting _ _ a opening => !opening.rest.isEmpty || (opening.opened.isNone && a.next.rows.isEmpty)
    | .decryptedFolders _ collections records folders =>
      collections.isEmpty && records.all (·.plaintext.isNone) && folders.all (·.name.isNone)
    | _ => true
  | _ => true

end World

variable {w w' : World K P} {e : Event K} {i : Nat}

/-! ## What a write comes to -/

theorem adopt_keyless {m : Memory K} {privateKey : Ref} {a a' : Adoption} {wire : List CollectionWithMembership}
    (hk : m.session.collectionKeys = ∅) (h : adopt S zero m privateKey a wire = (a', none)) :
    wire = [] ∧ a' = a := by
  cases wire with
  | nil =>
    cases h
    exact ⟨rfl, rfl⟩
  | cons c rest =>
    have hnone : m.session.getCollectionKey c.id = none := by
      unfold SessionBuffers.getCollectionKey
      rw [hk]
      rfl
    simp [adopt, hnone] at h

theorem mem_merge {T : Type} {id : T → Id} {deletedAt : T → Option Time} {existing : Table id} {incoming : List T}
    {r : T} (h : r ∈ merge deletedAt existing incoming) : r ∈ existing ∨ r ∈ incoming := by
  induction incoming generalizing existing with
  | nil => exact Or.inl h
  | cons x xs ih =>
    rcases ih h with hr | hr
    · beta_reduce at hr
      split at hr
      · exact Or.inl (Table.mem_delete.mp hr).1
      · rcases Table.mem_upsert.mp hr with ⟨hr, -⟩ | rfl
        · exact Or.inl hr
        · exact Or.inr (List.mem_cons_self ..)
    · exact Or.inr (List.mem_cons_of_mem _ hr)

/-! ## The lock holds -/

theorem Bare.congr (h : Bare w) (hs : w'.memory.session = w.memory.session) (hi : w'.store.items = w.store.items)
    (hf : w'.store.folders = w.store.folders) (hc : w'.store.collections = w.store.collections) : Bare w' := by
  refine ⟨?_, ?_, ?_, ?_, ?_, ?_, hc.trans h.collections⟩
  · rw [hs, h.tokens]
  · rw [hs, h.userKey]
  · rw [hs, h.privateKey]
  · rw [hs, h.collectionKeys]
  · rw [hi]
    exact h.items
  · rw [hf]
    exact h.folders

theorem bare_locked (w : World K P) : Bare w.locked :=
  ⟨rfl, rfl, rfl, rfl, fun _ hr => absurd hr (Table.mem_empty _), fun _ hr => absurd hr (Table.mem_empty _), rfl⟩

theorem adopts_session {fetch : Fetch} {privateKey : Ref} {a : Adoption} {wire : List CollectionWithMembership}
    (h : Adopts S zero w i fetch privateKey a wire w') :
    w'.memory.session.isUnlocked = w.memory.session.isUnlocked := by
  cases h <;> rfl

theorem resumes_session {p : Phase K P} (h : Resumes S zero w i p w') :
    w'.memory.session.isUnlocked = w.memory.session.isUnlocked := by
  cases h with
  | adopts h =>
    rw [adopts_session h]
    unfold Adoption.settle
    split <;> rfl
  | reads h => rfl
  | publishes => rfl

theorem Bare.resumes {p : Phase K P} (hb : Bare w) (h : Resumes S zero w i p w') (hp : w.calls i = p)
    (hs : w.settles (.resumed i) = true) : Bare w' := by
  have hlocked : w.memory.session.isUnlocked = false := by
    simp [SessionBuffers.isUnlocked, hb.userKey]
  simp only [World.settles, hlocked, Bool.false_or, hp] at hs
  cases h with
  | reads h => exact hb.congr rfl rfl rfl rfl
  | publishes =>
    simp only [Bool.and_eq_true, List.isEmpty_iff, List.all_eq_true, Option.isNone_iff_eq_none] at hs
    obtain ⟨⟨hcollections, hitems⟩, hfolders⟩ := hs
    refine ⟨hb.tokens, hb.userKey, hb.privateKey, hb.collectionKeys, ?_, ?_, hcollections⟩
    · intro record hr
      rcases mem_merge hr with hr | hr
      · split at hr
        · exact absurd hr (Table.mem_empty _)
        · exact hb.items record hr
      · exact hitems record hr
    · intro record hr
      rcases mem_merge hr with hr | hr
      · split at hr
        · exact absurd hr (Table.mem_empty _)
        · exact hb.folders record hr
      · exact hfolders record hr
  | @adopts fetch privateKey a opening _ h =>
    have hsession := settle_session a opening w.memory
    cases h with
    | opens h => exact hb.congr hsession rfl rfl rfl
    | @installs a' h =>
      have hkeys : (a.settle opening w.memory).2.session.collectionKeys = ∅ := by rw [hsession, hb.collectionKeys]
      obtain ⟨hrest, rfl⟩ := adopt_keyless hkeys h
      simp only [hrest, List.isEmpty_nil, Bool.not_true, Bool.false_or, Bool.and_eq_true, Option.isNone_iff_eq_none,
        List.isEmpty_iff] at hs
      have hnext : (a.settle opening w.memory).1.next = ∅ := by
        unfold Adoption.settle
        rw [hs.1]
        exact Table.ext hs.2
      refine ⟨?_, ?_, ?_, hnext, hb.items, hb.folders, hb.collections⟩
      · exact (congrArg SessionBuffers.tokens hsession).trans hb.tokens
      · exact (congrArg SessionBuffers.userKey hsession).trans hb.userKey
      · exact (congrArg SessionBuffers.privateKey hsession).trans hb.privateKey

/-- Until the next `open`, a locked tab is bare. -/
def Shut (w : World K P) : Prop := w.memory.session.isUnlocked = false → Bare w

theorem shut_step (h : Lts.Guarded (World.step S C zero) (fun w e => w.settles e = true) w e w') (hw : Shut w) :
    Shut w' := by
  obtain ⟨h, hs⟩ := h
  intro hl
  cases step_steps h with
  | unlock => cases hl
  | lock => exact bare_locked w
  | load | resync | createCollection | call | waits | answers | commits => exact (hw hl).congr rfl rfl rfl rfl
  | renews => exact absurd hs (Bool.eq_false_iff.mp hl)
  | creates => exact absurd hs (Bool.eq_false_iff.mp hl)
  | locks => exact (bare_locked w).congr rfl rfl rfl rfl
  | @throws i task =>
    cases task with
    | call | fetchInto since | createCollection name r created => exact (hw hl).congr rfl rfl rfl rfl
  | syncs _ hk ha =>
    rw [adopts_session ha] at hl
    have hkey := (hw hl).userKey
    simp [SessionBuffers.getKeys, hkey] at hk
  | resumes hr =>
    rw [resumes_session hr] at hl
    exact (hw hl).resumes hr rfl hs

/-- Where no operation writes tokens, keys or rows into a locked tab, a locked tab holds none. -/
theorem locked_bare {genuine : Id → Option K} {es : List (Event K)}
    (h : Lts.Run (Lts.Guarded (World.step S C zero) fun w e => w.settles e = true) (World.start genuine) es w) :
    w.memory.session.isUnlocked = false → Bare w := by
  have hstart : Shut (World.start (P := P) genuine) :=
    fun _ => ⟨rfl, rfl, rfl, rfl, fun _ hr => absurd hr (Table.mem_empty _),
      fun _ hr => absurd hr (Table.mem_empty _), rfl⟩
  exact h.inv (P := Shut) (fun _ _ _ hs hw => shut_step hs hw) hstart

/-! A load is under way when the tab is locked; it has opened no collection key, and gives up. -/

def annWorld (events : List (Event (List Char))) : World (List Char) String :=
  events.foldl (World.next symbolicSealing symbolic ['0']) (World.start fun _ => none)

def lockOverLoad : List (Event (List Char)) :=
  [.unlock annTokens annKeys, .load 0, .synced 0 ⟨1, [personalItem "" ""], [], [sharedCollection "team" ""]⟩, .lock,
    .resumed 0, .resumed 0, .thrown 0]

theorem locked_bare_load : Bare (annWorld lockOverLoad) :=
  locked_bare (Lts.run_guarded_script (by decide)) (by decide)

/-- A refresh is under way, and is answered after the lock. -/
def lockOverRefresh : List (Event (List Char)) :=
  [.unlock annTokens annKeys, .call 0, .unauthorised 0 "authentication required", .lock,
    .refreshed 0 ⟨"access-2", "refresh-2"⟩]

theorem lock_leaves_tokens :
    ¬ ∀ (genuine : Id → Option (List Char)) (w : World (List Char) String) es,
      Lts.Run (World.step symbolicSealing symbolic ['0']) (World.start genuine) es w →
      w.memory.session.isUnlocked = false → Bare w := by
  intro h
  have hbare := h _ (annWorld lockOverRefresh) lockOverRefresh (Lts.run_script (by decide)) (by decide)
  exact absurd hbare.tokens (by decide)

end Keyhole.Client.Tab
