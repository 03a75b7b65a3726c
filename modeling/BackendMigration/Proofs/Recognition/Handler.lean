import BackendMigration.Proofs.Pattern.Matches
import BackendMigration.Proofs.Pattern.Spells
import BackendMigration.Proofs.Source.Block
import BackendMigration.Recognition.Scan
import Mathlib.Logic.Basic

/-! The body of a handler that is bound to an arrow function: the block that opens first behind the arrow,
whatever stands between the two. -/
namespace BackendMigration.Recognition

open Source Text Pattern

/-- The way to bind the handler of a function to an arrow function, up to the end of the arrow. -/
def arrowBinding (name : String) : Pattern := (handlersOf name).head (List.cons_ne_nil _ _)

/-- The body of a function whose handler has been found at a place of the text, or has not been found. -/
def bodyGiven (registry : Registry) (t : Text) (m : Match) (handler : Option Match) : Text :=
  let handled := handler.elim [] fun h => extractBlock t h.stop
  if !handled.isEmpty then handled
  else
    let inlined := extractBlock t m.stop
    if minBodyLength < inlined.length && isCallBody registry t m then inlined
    else firstBlockOfSize fallbackBlockSize t

variable {registry : Registry} {t front rest : Text} {filePath : String} {m h : Match} {rule : RecognitionRule}
  {name : String} {c : Candidate}

theorem locateBody_eq_bodyGiven (hstyle : rule.style ≠ .direct) :
    locateBody registry t m rule name = bodyGiven registry t m (firstOf (handlersOf name) t) := by
  have hsource : rule.style.bodySource = .handler := by
    cases hs : rule.style with
    | direct => exact absurd hs hstyle
    | factory | exportedFactory => rfl
  unfold locateBody
  rw [hsource]
  cases firstOf (handlersOf name) t <;> rfl

theorem firstOf_handlersOf (hbind : (arrowBinding name).search? (.start t) = some h) :
    firstOf (handlersOf name) t = some h := by
  have hhandlers : handlersOf name = arrowBinding name :: (handlersOf name).tail := rfl
  rw [firstOf, hhandlers, List.findSome?_cons, hbind]

/-- A binding that is found ends behind its arrow. -/
theorem exists_arrow (hbind : (arrowBinding name).search? (.start t) = some h) :
    ∃ front rest, t = front ++ "=>".toList ++ rest ∧ h.stop = (front ++ "=>".toList).length := by
  rw [Cursor.start_eq] at hbind
  obtain ⟨s, back, rfl, hm, -⟩ := search?_between_eq_some_iff.1 hbind
  obtain ⟨c', -, hstart, -, hback, hstop⟩ := takes_of_matchAt? hm
  obtain ⟨ps, hps⟩ : ∃ ps, arrowBinding name = concat (ps ++ [text "=>"]) :=
    ⟨[_, _, _, _, _, _, _, _], rfl⟩
  obtain ⟨u, v, htext, w, _, hw, rfl, rfl⟩ := exists_of_spells_concat_append (hps ▸ spells_of_matchAt? hm)
  obtain rfl := spells_text.1 hw
  have hstart : h.start = s.length := hstart
  have hback : back = h.text ++ c'.rest := hback
  rw [htext, List.append_nil] at hback hstop
  refine ⟨s ++ u, c'.rest, ?_, ?_⟩
  · rw [hback]
    simp only [List.append_assoc]
  · rw [hstop, hstart]
    simp only [List.length_append, Nat.add_assoc]

/-- What is skipped before the first brace is white space exactly if the brace comes first. -/
theorem allBlank_iff_head? {skipped : Text} (hskip : '{' ∉ skipped) (hrest : rest.head? = some '{') :
    allBlank skipped = true ↔ (trimStart isBlank (skipped ++ rest)).head? = some '{' := by
  rw [trimStart, List.dropWhile_append]
  split
  · rename_i hempty
    have hblank : allBlank skipped = true := by
      rw [allBlank, List.all_eq_true]
      exact (trimStart_eq_nil_iff isBlank skipped).1 (List.isEmpty_iff.1 hempty)
    obtain ⟨r, rfl⟩ := List.head?_eq_some_iff.1 hrest
    have hopening : isBlank '{' = false := by decide
    simp [hblank, hopening]
  · rename_i hne
    obtain ⟨a, r, hr⟩ := List.exists_cons_of_ne_nil fun h => hne (List.isEmpty_iff.2 h)
    have hmem : a ∈ skipped := (List.dropWhile_suffix isBlank).subset (hr ▸ List.mem_cons_self)
    have hblank : allBlank skipped ≠ true := fun h => by
      have := (trimStart_eq_nil_iff isBlank skipped).2 (List.all_eq_true.1 h)
      rw [trimStart, hr] at this
      cases this
    refine iff_of_false hblank fun h => hskip ?_
    rw [hr] at h
    obtain rfl : a = '{' := Option.some.inj h
    exact hmem

/-- The block that opens first is taken, or none if it does not close. -/
theorem extractBlock_append (front rest : Text) :
    (∃ skipped block back, rest = skipped ++ (block ++ back) ∧ '{' ∉ skipped ∧ IsBlock .braces block ∧
        extractBlock (front ++ rest) front.length = block) ∨
      (∀ skipped block back, rest = skipped ++ (block ++ back) → '{' ∉ skipped → ¬IsBlock .braces block) ∧
        extractBlock (front ++ rest) front.length = [] := by
  unfold extractBlock
  split
  · rename_i s hs
    obtain ⟨skipped, block, back, rfl, hskip, hblock, rfl⟩ :=
      (findBlock?_append_eq_some_iff distinct_braces).1 hs
    refine .inl ⟨skipped, block, back, rfl, hskip, hblock, ?_⟩
    rw [← List.append_assoc, slice_between]
  · rename_i hnone
    refine .inr ⟨fun skipped block back hrest hskip hblock => ?_, rfl⟩
    rw [(findBlock?_append_eq_some_iff distinct_braces).2 ⟨skipped, block, back, hrest, hskip, hblock, rfl⟩]
      at hnone
    cases hnone

/-- The body of a function whose handler is bound to an arrow function is the block that opens first behind
the arrow. It is the handler's own exactly if nothing but white space is skipped; where none opens, or it
does not close, it is as if no handler had been found. -/
theorem body_of_arrow_handler (hstyle : c.rule.style ≠ .direct)
    (hbind : (arrowBinding (c.record registry t filePath).name).search? (.start t) = some h) :
    ∃ front rest, t = front ++ "=>".toList ++ rest ∧ h.stop = (front ++ "=>".toList).length ∧
      ((∃ skipped block back, rest = skipped ++ (block ++ back) ∧ '{' ∉ skipped ∧ IsBlock .braces block ∧
          (c.record registry t filePath).body = String.ofList block ∧
          (allBlank skipped = true ↔ (trimStart isBlank rest).head? = some '{')) ∨
        (∀ skipped block back, rest = skipped ++ (block ++ back) → '{' ∉ skipped → ¬IsBlock .braces block) ∧
          (c.record registry t filePath).body = String.ofList (bodyGiven registry t c.found none)) := by
  have hbody : (c.record registry t filePath).body =
      String.ofList (bodyGiven registry t c.found (some h)) := by
    rw [← firstOf_handlersOf hbind, ← locateBody_eq_bodyGiven hstyle]
    rfl
  obtain ⟨front, rest, ht, hstop⟩ := exists_arrow hbind
  refine ⟨front, rest, ht, hstop, ?_⟩
  rw [hbody]
  rcases extractBlock_append (front ++ "=>".toList) rest with
    ⟨skipped, block, back, hrest, hskip, hblock, hextract⟩ | ⟨hnone, hextract⟩
  · rw [← ht, ← hstop] at hextract
    have ⟨inner, hinner, _⟩ := hblock
    refine .inl ⟨skipped, block, back, hrest, hskip, hblock, ?_, ?_⟩
    · simp [bodyGiven, hextract, hinner]
    · rw [hrest]
      exact allBlank_iff_head? hskip (by rw [hinner]; rfl)
  · rw [← ht, ← hstop] at hextract
    refine .inr ⟨hnone, ?_⟩
    simp [bodyGiven, hextract]

/-- A handler with a block behind its arrow. -/
theorem body_of_arrow_handler_block :
    let rule : RecognitionRule := ⟨"http_factory", factoryCall "createHttpFunction", .http, .factory⟩
    let t := "const payHandler = (q, r) => \x7b r.send(total); \x7d;\ncreateHttpFunction('pay', payHandler);".toList
    let c : Candidate := ⟨⟨49, 73, "createHttpFunction('pay'".toList, [("name", "pay".toList)]⟩, rule, 0⟩
    let h : Match := ⟨0, 28, "const payHandler = (q, r) =>".toList, []⟩
    candidates ⟨[rule]⟩ t = [c] ∧ c.rule.style ≠ .direct ∧
      (arrowBinding (c.record ⟨[rule]⟩ t "index.js").name).search? (.start t) = some h ∧
      ∃ front rest skipped block back, t = front ++ "=>".toList ++ rest ∧
        rest = skipped ++ (block ++ back) ∧ allBlank skipped = true ∧ IsBlock .braces block ∧
        (c.record ⟨[rule]⟩ t "index.js").body = String.ofList block := by
  intro rule t c h
  have ht : t = _ := String.toList_ofList
  have hcandidates : candidates ⟨[rule]⟩ t = [c] := by
    rw [ht]
    decide +kernel
  have hstyle : c.rule.style ≠ .direct := by decide
  have hbind : (arrowBinding (c.record ⟨[rule]⟩ t "index.js").name).search? (.start t) = some h := by
    rw [ht]
    decide +kernel
  obtain ⟨front, rest, htext, hstop, hbody⟩ := body_of_arrow_handler hstyle hbind
  have hrest : rest = t.drop 28 := by
    rw [htext]
    exact (List.drop_left' hstop.symm).symm
  refine ⟨hcandidates, hstyle, hbind, front, rest, ?_⟩
  rcases hbody with ⟨skipped, block, back, hsplit, -, hblock, hbody, hblank⟩ | ⟨hnone, -⟩
  · have hfirst : (trimStart isBlank (t.drop 28)).head? = some '{' := by
      rw [ht]
      decide
    exact ⟨skipped, block, back, htext, hsplit, hblank.2 (hrest ▸ hfirst), hblock, hbody⟩
  · have hsplit : t.drop 28 = [' '] ++ ("\x7b r.send(total); \x7d".toList ++
        ";\ncreateHttpFunction('pay', payHandler);".toList) := by
      rw [ht]
      decide +kernel
    have hblock : IsBlock .braces "\x7b r.send(total); \x7d".toList :=
      ⟨" r.send(total); ".toList, by decide, (nested_iff distinct_braces).2 (by decide)⟩
    exact absurd hblock (hnone _ _ _ (hrest.trans hsplit) (by decide))

/-- The block of a function behind a handler without a block is taken for the handler's. -/
theorem body_of_arrow_handler_expression : ¬∀ (registry : Registry) (t : Text) (filePath : String)
    (c : Candidate) (h : Match), c ∈ candidates registry t → c.rule.style ≠ .direct →
      (arrowBinding (c.record registry t filePath).name).search? (.start t) = some h →
      (∃ skipped block back, t.drop h.stop = skipped ++ (block ++ back) ∧ allBlank skipped = true ∧
          IsBlock .braces block ∧ (c.record registry t filePath).body = String.ofList block) ∨
        (c.record registry t filePath).body = String.ofList (bodyGiven registry t c.found none) := by
  intro hall
  let rule : RecognitionRule := ⟨"http_factory", factoryCall "createHttpFunction", .http, .factory⟩
  let t := "const payHandler = (q, r) => r.send('ok');\nfunction other() \x7b return total + 1; \x7d\n".toList ++
    "createHttpFunction('pay', payHandler);".toList
  let c : Candidate := ⟨⟨82, 106, "createHttpFunction('pay'".toList, [("name", "pay".toList)]⟩, rule, 0⟩
  have ht : t = _ ++ _ := congrArg₂ (· ++ ·) String.toList_ofList String.toList_ofList
  have hcandidates : candidates ⟨[rule]⟩ t = [c] := by
    rw [ht]
    decide +kernel
  have hbind : (arrowBinding (c.record ⟨[rule]⟩ t "index.js").name).search? (.start t) =
      some ⟨0, 28, "const payHandler = (q, r) =>".toList, []⟩ := by
    rw [ht]
    decide +kernel
  have hbody : (c.record ⟨[rule]⟩ t "index.js").body = "\x7b return total + 1; \x7d" := by
    rw [ht]
    decide +kernel
  have hwithout : bodyGiven ⟨[rule]⟩ t c.found none = [] := by
    rw [ht]
    decide +kernel
  have hmem : c ∈ candidates ⟨[rule]⟩ t := hcandidates ▸ List.mem_singleton_self c
  rcases hall ⟨[rule]⟩ t "index.js" c _ hmem (by decide) hbind with
    ⟨skipped, block, back, hsplit, hblank, ⟨inner, rfl, -⟩, -⟩ | h
  · have hfirst : (trimStart isBlank (t.drop 28)).head? = some 'r' := by
      rw [ht]
      decide
    have hopening : isBlank '{' = false := by decide
    have hsplit : t.drop 28 = skipped ++ ('{' :: (inner ++ ['}']) ++ back) := hsplit
    rw [hsplit, trimStart, List.dropWhile_append_of_pos (List.all_eq_true.1 hblank)] at hfirst
    simp [hopening] at hfirst
  · rw [hbody, hwithout] at h
    exact absurd h (by decide)

end BackendMigration.Recognition
