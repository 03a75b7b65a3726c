import BackendMigration.Proofs.Adaptation.Whole
import BackendMigration.Proofs.Source.Literals

/-! The payload of an answer is written as it stood in the call, but for white space around its commas. -/
namespace BackendMigration.Adaptation

open Source Text

variable {edit : Cursor → Option Edit} {old new t : Text}

/-- A stretch is replaced where the edit says so. -/
theorem exists_of_mem_segmentsFrom {dropped copied offset : Nat} {previous : Option Char}
    (h : .replaced old new ∈ segmentsFrom edit dropped copied previous offset t) :
    ∃ c n, edit c = some (.replace n new) ∧ old = c.rest.take (n - 1 + 1) := by
  induction t generalizing dropped copied previous offset with
  | nil => simp [segmentsFrom] at h
  | cons c r ih =>
    cases dropped with
    | succ dropped => exact ih h
    | zero =>
      cases copied with
      | succ copied =>
        rcases List.mem_cons.1 h with h | h
        · cases h
        · exact ih h
      | zero =>
        unfold segmentsFrom at h
        split at h
        · rename_i n new' hedit
          rcases List.mem_cons.1 h with h | h
          · obtain ⟨rfl, rfl⟩ := Segment.replaced.inj h
            exact ⟨_, n, hedit, rfl⟩
          · exact ih h
        · rcases List.mem_cons.1 h with h | h
          · cases h
          · exact ih h
        · rcases List.mem_cons.1 h with h | h
          · cases h
          · exact ih h

theorem exists_of_mem_segments (h : .replaced old new ∈ segments edit t) :
    ∃ c n, edit c = some (.replace n new) ∧ old = c.rest.take (n - 1 + 1) :=
  exists_of_mem_segmentsFrom h

theorem take_callText {c : Cursor} {old rest : Text} (hr : c.rest = old ++ rest) (hne : old ≠ []) :
    c.rest.take (old.length - 1 + 1) = old := by
  have := List.length_pos_iff.2 hne
  rw [Nat.sub_add_cancel this, hr, List.take_left]

/-- An answer without a status. -/
theorem exists_of_response {method : ResponseMethod}
    (h : .replaced old new ∈ segments (Action.response method).edit t) :
    ∃ name inner, '(' ∉ name ∧ Nested .parentheses inner ∧ old = callText name inner ∧
      new = answer method (join ", ".toList (argumentTexts inner)) := by
  obtain ⟨c, n, hedit, rfl⟩ := exists_of_mem_segments h
  obtain ⟨m, args, hm, ha, hnew, rfl⟩ := exists_of_callEdit hedit
  obtain ⟨name, rest, hname, hr, hl, hi⟩ := text_of_call (by decide) hm ha
  have hfinds : FindsCall responseCall := findsCall_of_mem (by simp)
  refine ⟨name, args.inner, hfinds.not_mem hm hname, hi, ?_, ?_⟩
  · rw [hl]
    exact take_callText hr (ne_nil_of_callText _ _)
  · unfold convertResponse at hnew
    split at hnew
    · exact (Option.some.inj hnew).symm
    · cases hnew

/-- An answer with a status. -/
theorem exists_of_statusResponse {method : ResponseMethod}
    (h : .replaced old new ∈ segments (Action.statusResponse method).edit t) :
    ∃ name status name' payload, '(' ∉ name ∧ Nested .parentheses status ∧ '(' ∉ name' ∧
      Nested .parentheses payload ∧ old = callText name status ++ callText name' payload ∧
      new = answerWithStatus method (strip status) (strip payload) := by
  obtain ⟨c, n, hedit, rfl⟩ := exists_of_mem_segments h
  obtain ⟨m, c', m', name, status, name', payload, rest, hm, hname, hm', hname', hr, rfl, hs, hp, rfl⟩ :=
    text_of_statusEdit hedit
  refine ⟨name, status, name', payload, findsCall_statusCall.not_mem hm hname, hs,
    findsCall_chainedCall.not_mem hm' hname', hp, ?_, rfl⟩
  exact take_callText hr (by simp [callText])

/-- The payload of an answer without a status is cut at commas that are read outside of literals and
brackets, and joined again. These are the commas between its arguments if no literal has its own quote mark
inside; so its code changes in white space only, and its literals do not change. The payload of an answer
with a status is copied. -/
theorem answers_keep_payload (method : ResponseMethod) (t : Text) :
    (∀ old new, .replaced old new ∈ segments (Action.response method).edit t →
      ∃ name inner, '(' ∉ name ∧ Nested .parentheses inner ∧ old = callText name inner ∧
        join [','] (Reader.start.parts inner) = inner ∧
        new = answer method (join ", ".toList ((Reader.start.parts inner).map strip)) ∧
        ∀ ps, inner = sourceText ps → (∀ p ∈ ps, p.Valid) → (∀ p ∈ ps, p.Bare) →
          new = answer method (sourceText (respaced ps)) ∧ solid (respaced ps) = solid ps) ∧
    ∀ old new, .replaced old new ∈ segments (Action.statusResponse method).edit t →
      ∃ name status name' payload, '(' ∉ name ∧ Nested .parentheses status ∧ '(' ∉ name' ∧
        Nested .parentheses payload ∧ old = callText name status ++ callText name' payload ∧
        new = answerWithStatus method (strip status) (strip payload) := by
  refine ⟨fun old new h => ?_, fun old new h => exists_of_statusResponse h⟩
  obtain ⟨name, inner, hname, hi, rfl, rfl⟩ := exists_of_response h
  refine ⟨name, inner, hname, hi, rfl, Reader.join_parts _ _, ?_, ?_⟩
  · rw [join_argumentTexts]
  · rintro ps rfl hv hb
    exact ⟨by rw [join_argumentTexts_sourceText hv hb], solid_respaced ps⟩

/-- A literal with a comma is written as it is. -/
theorem answers_keep_literal : ∃ ps : List Piece, sourceText ps = "a,'b,c'".toList ∧ (∀ p ∈ ps, p.Valid) ∧
    (∀ p ∈ ps, p.Bare) ∧ "return new Response(a, 'b,c')".toList = answer .send (sourceText (respaced ps)) := by
  have hmem : .replaced "res.send(a,'b,c')".toList "return new Response(a, 'b,c')".toList ∈
      segments (Action.response .send).edit "res.send(a,'b,c');".toList := by decide +kernel
  obtain ⟨name, inner, hname, hi, hold, -, -, hread⟩ := (answers_keep_payload .send _).1 _ _ hmem
  have hcall : callText name inner = callText "res.send".toList "a,'b,c'".toList := hold.symm
  obtain ⟨-, rfl, -⟩ := callText_inj hname (by decide) hi ((nested_iff (by decide)).2 (by decide))
    (congrArg (· ++ []) hcall)
  have hps : "a,'b,c'".toList =
      sourceText [.code 'a', .code ',', .literal '\'' "b,c".toList] := by decide
  have hv : ∀ p ∈ [Piece.code 'a', .code ',', .literal '\'' "b,c".toList], p.Valid := by
    simp [Piece.Valid]; decide
  have hb : ∀ p ∈ [Piece.code 'a', .code ',', .literal '\'' "b,c".toList], p.Bare := by
    simp [Piece.Bare]
  exact ⟨_, hps.symm, hv, hb, (hread _ hps hv hb).1⟩

/-- The comma of a literal that has its own quote mark inside is taken for one between arguments. -/
theorem escaped_literal_changed : ∃ ps : List Piece, sourceText ps = "'it\\'s,here'".toList ∧
    (∀ p ∈ ps, p.Valid) ∧ ∃ new, .replaced "res.send('it\\'s,here')".toList new ∈
      segments (Action.response .send).edit "res.send('it\\'s,here');".toList ∧
    new = answer .send "'it\\'s, here'".toList ∧ new ≠ answer .send (sourceText (respaced ps)) := by
  refine ⟨[.literal '\'' "it\\'s,here".toList], by decide, ?_, _, ?_, rfl, ?_⟩
  · simp [Piece.Valid]; decide
  · decide +kernel
  · decide +kernel

end BackendMigration.Adaptation
