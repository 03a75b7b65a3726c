import BackendMigration.Proofs.Pattern.Takes

/-! Patterns whose matches begin and end between words. -/
namespace BackendMigration

/-- No word goes on across a place. -/
def Cursor.IsBreak (c : Cursor) : Prop :=
  ∀ a ∈ c.previous, ∀ b ∈ c.rest.head?, Text.isWord a = true → Text.isWord b = false

/-- A class of one character that is in no word. -/
def CharClass.isMark : CharClass → Bool
  | only c => !Text.isWord c
  | _ => false

namespace Pattern

/-- Every match begins between words, or takes nothing if that is allowed. -/
def beginsApart : Pattern → (orEmpty : Bool) → Bool
  | one k, _ => k.isMark
  | wordEdge, _ => true
  | seq p q, orEmpty => p.beginsApart false || (p.beginsApart true && q.beginsApart orEmpty)
  | alt p q, orEmpty => p.beginsApart orEmpty && q.beginsApart orEmpty
  | many p, orEmpty => orEmpty && p.beginsApart true
  | part _ p, orEmpty => p.beginsApart orEmpty
  | nothing, orEmpty | notAfter _, orEmpty | before _, orEmpty | atEnd, orEmpty => orEmpty

/-- Every match ends between words, or takes nothing if that is allowed. -/
def endsApart : Pattern → (orEmpty : Bool) → Bool
  | one k, _ => k.isMark
  | wordEdge, _ => true
  | seq p q, orEmpty => q.endsApart false || (q.endsApart true && p.endsApart orEmpty)
  | alt p q, orEmpty => p.endsApart orEmpty && q.endsApart orEmpty
  | many p, orEmpty => orEmpty && p.endsApart true
  | part _ p, orEmpty => p.endsApart orEmpty
  | nothing, orEmpty | notAfter _, orEmpty | before _, orEmpty | atEnd, orEmpty => orEmpty

variable {p : Pattern} {c c' : Cursor} {orEmpty : Bool}

theorem isBreak_of_isWordEdge (h : c.isWordEdge = true) : c.IsBreak := by
  intro a ha b hb hw
  simp only [Option.mem_def] at ha hb
  simpa [Cursor.isWordEdge, ha, hb, hw] using h

theorem isBreak_of_step? {k : CharClass} (hk : k.isMark = true) (h : c.step? k = some c') :
    c.IsBreak ∧ c'.IsBreak := by
  cases k with
  | only mark =>
    have hmark : Text.isWord mark = false := by simpa [CharClass.isMark] using hk
    unfold Cursor.step? at h
    split at h
    · cases h
    · rename_i a r hr
      split at h
      · rename_i ha
        obtain rfl : a = mark := by simpa using ha
        cases h
        constructor
        · intro b _ d hd _
          rw [hr, List.head?_cons, Option.mem_some_iff] at hd
          rwa [← hd]
        · intro b hb d _ hw
          rw [Option.mem_some_iff] at hb
          rw [← hb, hmark] at hw
          cases hw
      · cases h
  | _ => simp [CharClass.isMark] at hk

theorem Takes.isBreak_or (h : Takes p c c') (hp : p.beginsApart orEmpty = true) :
    c.IsBreak ∨ orEmpty = true ∧ c' = c := by
  induction h generalizing orEmpty with
  | one hs => exact .inl (isBreak_of_step? hp hs).1
  | wordEdge hw => exact .inl (isBreak_of_isWordEdge hw)
  | seq _ _ ihp ihq =>
    simp only [beginsApart, Bool.or_eq_true, Bool.and_eq_true] at hp
    rcases hp with hp | ⟨hp, hq⟩
    · rcases ihp hp with hb | ⟨hf, -⟩
      · exact .inl hb
      · cases hf
    · rcases ihp hp with hb | ⟨-, rfl⟩
      · exact .inl hb
      · exact ihq hq
  | left _ ih =>
    simp only [beginsApart, Bool.and_eq_true] at hp
    exact ih hp.1
  | right _ ih =>
    simp only [beginsApart, Bool.and_eq_true] at hp
    exact ih hp.2
  | again _ hlt _ ihp _ =>
    simp only [beginsApart, Bool.and_eq_true] at hp
    rcases ihp hp.2 with hb | ⟨-, rfl⟩
    · exact .inl hb
    · omega
  | part _ ih => exact ih hp
  | done =>
    simp only [beginsApart, Bool.and_eq_true] at hp
    exact .inr ⟨hp.1, rfl⟩
  | nothing | notAfter | before | atEnd => exact .inr ⟨hp, rfl⟩

theorem Takes.isBreak_end_or (h : Takes p c c') (hp : p.endsApart orEmpty = true) :
    c'.IsBreak ∨ orEmpty = true ∧ c' = c := by
  induction h generalizing orEmpty with
  | one hs => exact .inl (isBreak_of_step? hp hs).2
  | wordEdge hw => exact .inl (isBreak_of_isWordEdge hw)
  | seq _ _ ihp ihq =>
    simp only [endsApart, Bool.or_eq_true, Bool.and_eq_true] at hp
    rcases hp with hq | ⟨hq, hp⟩
    · rcases ihq hq with hb | ⟨hf, -⟩
      · exact .inl hb
      · cases hf
    · rcases ihq hq with hb | ⟨-, rfl⟩
      · exact .inl hb
      · exact ihp hp
  | left _ ih =>
    simp only [endsApart, Bool.and_eq_true] at hp
    exact ih hp.1
  | right _ ih =>
    simp only [endsApart, Bool.and_eq_true] at hp
    exact ih hp.2
  | again _ hlt _ ihp ihq =>
    have hmany := hp
    simp only [endsApart, Bool.and_eq_true] at hp
    rcases ihq hmany with hb | ⟨-, rfl⟩
    · exact .inl hb
    · rcases ihp hp.2 with hb | ⟨-, rfl⟩
      · exact .inl hb
      · omega
  | part _ ih => exact ih hp
  | done =>
    simp only [endsApart, Bool.and_eq_true] at hp
    exact .inr ⟨hp.1, rfl⟩
  | nothing | notAfter | before | atEnd => exact .inr ⟨hp, rfl⟩

theorem isBreak_of_matchAt? {m : Match} (h : p.matchAt? c = some m)
    (hp : p.beginsApart false = true) : c.IsBreak := by
  obtain ⟨c', ht, _⟩ := takes_of_matchAt? h
  rcases ht.isBreak_or hp with hb | ⟨hf, -⟩
  · exact hb
  · cases hf

theorem isBreak_end_of_matchAt? {m : Match} (h : p.matchAt? c = some m)
    (hp : p.endsApart false = true) : (c.advance (m.stop - m.start)).IsBreak := by
  obtain ⟨c', ht, hs, he, _⟩ := takes_of_matchAt? h
  rw [hs, he, ← ht.eq_advance]
  rcases ht.isBreak_end_or hp with hb | ⟨hf, -⟩
  · exact hb
  · cases hf

end Pattern
end BackendMigration
