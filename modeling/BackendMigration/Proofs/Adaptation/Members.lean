import BackendMigration.Proofs.Adaptation.Rewrites
import BackendMigration.Proofs.Pattern.Matches
import Mathlib.Data.List.Induction

/-! The rules that put the new client in the place of the old one: what they replace, and which of their
replacements come to stand behind a point, as members of another object. -/
namespace BackendMigration.Adaptation

open Source Text Pattern

/-- The rules whose replacements are values that stand by themselves. -/
def clientRules : List Rule :=
  Rule.all.filter fun rule =>
    rule.name ∈ ["server_timestamp", "firestore_client", "auth_client", "storage_client"]

/-- A text ends in a point, with any white space behind it. -/
def EndsInPoint (t : Text) : Prop := (trimEnd isBlank t).getLast? = some '.'

instance (t : Text) : Decidable (EndsInPoint t) :=
  inferInstanceAs (Decidable ((trimEnd isBlank t).getLast? = some '.'))

/-- From a place on segments are characters at which the pattern finds nothing, and matches that are
replaced. -/
inductive Substituted (p : Pattern) (new : Text) : (front : Text) → List Segment → Prop
  | done {front : Text} : Substituted p new front []
  | kept {front : Text} {c : Char} {segs : List Segment} :
      p.matchAt? (.between front (c :: before segs)) = none → Substituted p new (front ++ [c]) segs →
      Substituted p new front (.kept c :: segs)
  | found {front : Text} {m : Match} {segs : List Segment} :
      p.matchAt? (.between front (m.text ++ before segs)) = some m →
      Substituted p new (front ++ m.text) segs →
      Substituted p new front (.replaced m.text new :: segs)

variable {p : Pattern} {front back t old put new : Text} {segs s₁ s₂ : List Segment} {m : Match}

/-! What a substitution replaces. -/

theorem substituted_segmentsFrom (hp : 0 < p.minLength) (new front t : Text) :
    Substituted p new front
      (segmentsFrom (substitution p new) 0 0 front.getLast? front.length t) := by
  -- What follows a match is shorter by the whole match.
  induction hk : t.length using Nat.strongRecOn generalizing front t with
  | _ k ih =>
    subst hk
    cases t with
    | nil => exact .done
    | cons c r =>
      cases hm : p.matchAt? (.between front (c :: r)) with
      | none =>
        rw [segmentsFrom_of_none (by rw [substitution, hm]; rfl)]
        refine .kept (by rwa [before_segmentsFrom]) ?_
        exact ih r.length (Nat.lt_succ_self _) (front ++ [c]) r rfl
      | some m =>
        obtain ⟨c', -, hrest, hl⟩ := rest_eq_of_text hm rfl
        have hrest : c :: r = m.text ++ c'.rest := hrest
        have hne := text_ne_nil_of_matchAt? hp hm
        rw [hrest] at hm ih ⊢
        have hedit : substitution p new (.between front (m.text ++ c'.rest)) =
            some (.replace m.text.length new) := by
          rw [substitution, hm, Option.map_some, hl]
        rw [segmentsFrom_of_replace hne hedit]
        have hshort : c'.rest.length < (m.text ++ c'.rest).length := by
          rw [List.length_append]
          have := List.length_pos_iff.2 hne
          omega
        exact .found (by rwa [before_segmentsFrom]) (ih _ hshort _ _ rfl)

theorem substituted_segments (hp : 0 < p.minLength) (new t : Text) :
    Substituted p new [] (segments (substitution p new) t) :=
  substituted_segmentsFrom hp new [] t

/-- What is replaced is a match where it stands. -/
theorem Substituted.exists_match (h : Substituted p new front (s₁ ++ .replaced old put :: s₂)) :
    put = new ∧ ∃ m, p.matchAt? (.between (front ++ before s₁) (old ++ before s₂)) = some m ∧
      m.text = old := by
  induction s₁ generalizing front with
  | nil =>
    rw [List.nil_append] at h
    cases h with
    | found hm _ => exact ⟨rfl, _, by rwa [before_nil, List.append_nil], rfl⟩
  | cons segment s₁ ih =>
    rw [List.cons_append] at h
    cases h with
    | kept _ h =>
      have := ih h
      rwa [List.append_assoc] at this
    | found _ h =>
      have := ih h
      rwa [List.append_assoc] at this

/-- A match is replaced, or it begins within one that is. -/
theorem Substituted.exists_replaced (h : Substituted p new front segs) (ht : before segs = t ++ back)
    (hb : back ≠ []) (hm : p.matchAt? (.between (front ++ t) back) = some m) :
    ∃ s₁ old s₂, segs = s₁ ++ .replaced old new :: s₂ ∧ (before s₁).length ≤ t.length ∧
      t.length < (before s₁).length + old.length := by
  induction h generalizing t with
  | done =>
    exact absurd (List.append_eq_nil_iff.1 ht.symm).2 hb
  | @kept front c segs hnone _ ih =>
    cases t with
    | nil =>
      obtain rfl : c :: before segs = back := ht
      rw [List.append_nil, hnone] at hm
      cases hm
    | cons a t =>
      obtain ⟨rfl, hrest⟩ := List.cons.inj ht
      obtain ⟨s₁, old, s₂, rfl, hle, hlt⟩ := ih hrest (by rwa [List.append_assoc])
      exact ⟨.kept c :: s₁, old, s₂, rfl, by simpa [Segment.before] using hle,
        by simpa [Segment.before, Nat.add_right_comm] using hlt⟩
  | @found front m₀ segs _ _ ih =>
    rcases Nat.lt_or_ge t.length m₀.text.length with hlt | hge
    · exact ⟨[], m₀.text, segs, rfl, Nat.zero_le _, by simpa using hlt⟩
    · obtain ⟨w, rfl⟩ : m₀.text <+: t :=
        List.prefix_of_prefix_length_le (List.prefix_append _ (before segs)) ⟨back, ht.symm⟩ hge
      have ht : before segs = w ++ back := by
        rw [before_cons, Segment.before, List.append_assoc] at ht
        exact List.append_cancel_left ht
      obtain ⟨s₁, old, s₂, rfl, hle, hlt⟩ := ih ht (by rwa [List.append_assoc])
      refine ⟨.replaced m₀.text new :: s₁, old, s₂, rfl, ?_, ?_⟩
      · simpa [Segment.before] using hle
      · simpa [Segment.before, Nat.add_assoc] using hlt

/-! Points before replacements. -/

theorem trimEnd_concat (f : Char → Bool) (t : Text) (c : Char) :
    trimEnd f (t ++ [c]) = if f c then trimEnd f t else t ++ [c] := by
  by_cases h : f c = true <;> simp [trimEnd, h]

/-- A text with one more character ends in a point if that is one, or if it is white space behind one. -/
theorem endsInPoint_concat (t : Text) (c : Char) :
    EndsInPoint (t ++ [c]) ↔ if isBlank c then EndsInPoint t else c = '.' := by
  rw [EndsInPoint, trimEnd_concat]
  by_cases h : isBlank c = true
  · rw [if_pos h, if_pos h]
    rfl
  · rw [if_neg h, if_neg h]
    simp

/-- A text that ends in a sign other than a point, and not in white space. -/
def EndsSolid (t : Text) : Prop := t.getLast?.any (fun c => !isBlank c && c != '.') = true

theorem not_endsInPoint_append (ht : EndsSolid t) (s : Text) : ¬EndsInPoint (s ++ t) := by
  rcases List.eq_nil_or_concat t with rfl | ⟨u, c, rfl⟩
  · cases ht
  · rw [EndsSolid, List.concat_eq_append, List.getLast?_concat, Option.any_some, Bool.and_eq_true,
      Bool.not_eq_true', bne_iff_ne] at ht
    rw [List.concat_eq_append, ← List.append_assoc, endsInPoint_concat, ht.1]
    simpa using ht.2

/-- Whether a text ends in a point does not change where texts that end solid are replaced by others that do. -/
theorem endsInPoint_after_iff
    (h : ∀ old new, .replaced old new ∈ segs → EndsSolid old ∧ EndsSolid new) :
    EndsInPoint (after segs) ↔ EndsInPoint (before segs) := by
  induction segs using List.reverseRecOn with
  | nil => rfl
  | append_singleton segs segment ih =>
    have ih := ih fun old new hmem => h old new (List.mem_append_left _ hmem)
    rw [after_append, before_append]
    cases segment with
    | kept c =>
      change EndsInPoint (after segs ++ [c]) ↔ EndsInPoint (before segs ++ [c])
      rw [endsInPoint_concat, endsInPoint_concat, ih]
    | replaced old new =>
      obtain ⟨hold, hnew⟩ := h old new (List.mem_append_right _ List.mem_cons_self)
      rw [after_cons, before_cons, after_nil, before_nil, List.append_nil, List.append_nil]
      exact iff_of_false (not_endsInPoint_append hnew _) (not_endsInPoint_append hold _)

/-! The rules for the client. -/

/-- The action puts a value that ends solid for calls without arguments. -/
def Action.PutsValues : Action → Prop
  | substitute p new => 0 < p.minLength ∧ p.endsWith ')' = true ∧ EndsSolid new.toList
  | _ => False

instance : DecidablePred Action.PutsValues := fun action =>
  match action with
  | .substitute p new => inferInstanceAs (Decidable (0 < p.minLength ∧ p.endsWith ')' = true ∧
      new.toList.getLast?.any (fun c => !isBlank c && c != '.') = true))
  | .document | .filter | .statusResponse _ | .response _ => inferInstanceAs (Decidable False)

theorem putsValues_of_mem {rule : Rule} (h : rule ∈ clientRules) : rule.action.PutsValues := by
  have all : ∀ rule ∈ clientRules, rule.action.PutsValues := by decide
  exact all rule h

theorem endsSolid_of_endsWith (hp : p.endsWith ')' = true) {c : Cursor} (hm : p.matchAt? c = some m) :
    EndsSolid m.text := by
  obtain ⟨u, hu⟩ := exists_of_endsWith hp (spells_of_matchAt? hm)
  rw [EndsSolid, hu, List.getLast?_concat]
  decide

/-- What is replaced by a solid value ends solid itself where the pattern ends in a parenthesis. -/
theorem Substituted.endsSolid (h : Substituted p new [] segs) (hp : p.endsWith ')' = true)
    (hnew : EndsSolid new) (hmem : .replaced old put ∈ segs) : EndsSolid old ∧ EndsSolid put := by
  obtain ⟨s₁, s₂, rfl⟩ := List.append_of_mem hmem
  obtain ⟨rfl, m, hm, rfl⟩ := h.exists_match
  exact ⟨endsSolid_of_endsWith hp hm, hnew⟩

/-- What a rule for the client replaces: each text that its pattern matches, whatever stands before it. The
value that it puts there stands behind a point exactly if the text that it replaces does. -/
theorem client_rules_keep_points {rule : Rule} (hrule : rule ∈ clientRules) (t : Text) :
    ∃ p new, rule.action = .substitute p new ∧
      (∀ s₁ old put s₂, segments rule.action.edit t = s₁ ++ .replaced old put :: s₂ →
        t = before s₁ ++ (old ++ before s₂) ∧ rule.apply t = after s₁ ++ (put ++ after s₂) ∧
          put = new.toList ∧
          (∃ m, p.matchAt? (.between (before s₁) (old ++ before s₂)) = some m ∧ m.text = old) ∧
          (EndsInPoint (after s₁) ↔ EndsInPoint (before s₁))) ∧
      ∀ front back m, t = front ++ back → p.matchAt? (.between front back) = some m →
        ∃ s₁ old s₂, segments rule.action.edit t = s₁ ++ .replaced old new.toList :: s₂ ∧
          (before s₁).length ≤ front.length ∧ front.length < (before s₁).length + old.length := by
  obtain ⟨name, action⟩ := rule
  have hputs := putsValues_of_mem hrule
  cases action with
  | document | filter | statusResponse | response => exact hputs.elim
  | substitute p new =>
    obtain ⟨hp, hclosing, hsolid⟩ := hputs
    have hsegs := substituted_segments hp new.toList t
    have ht : before (segments (substitution p new.toList) t) = t := flatMap_before_segments _ t
    refine ⟨p, new, rfl, fun s₁ old put s₂ h => ?_, fun front back m hparts hm => ?_⟩
    · have h : segments (substitution p new.toList) t = s₁ ++ .replaced old put :: s₂ := h
      rw [h] at hsegs ht
      rw [before_append, before_cons] at ht
      obtain ⟨hput, hold⟩ := hsegs.exists_match
      refine ⟨ht.symm, ?_, hput, hold, endsInPoint_after_iff fun old' put' hmem => ?_⟩
      · change after (segments (substitution p new.toList) t) = _
        rw [h, after_append, after_cons]
        rfl
      · exact hsegs.endsSolid hclosing hsolid (List.mem_append_left _ hmem)
    · have hb : back ≠ [] := by
        rintro rfl
        obtain ⟨c', -, hr, -⟩ := rest_eq_of_text hm rfl
        exact text_ne_nil_of_matchAt? hp hm (List.append_eq_nil_iff.1 hr.symm).1
      exact hsegs.exists_replaced (ht.trans hparts) hb hm

/-- A value is put behind a point where the call that it replaces stands behind one. -/
theorem client_rule_keeps_point : ∃ rule ∈ clientRules, rule.name = "auth_client" ∧
    rule.apply "app.getAuth();".toList = "app.supabaseClient.auth.admin;".toList ∧
    ∃ s₁ s₂, segments rule.action.edit "app.getAuth();".toList =
        s₁ ++ .replaced "getAuth()".toList "supabaseClient.auth.admin".toList :: s₂ ∧
      EndsInPoint (before s₁) ∧ EndsInPoint (after s₁) := by
  have hmem : ⟨"auth_client", .substitute (serviceClient "auth" "getAuth") "supabaseClient.auth.admin"⟩ ∈
      clientRules := by decide
  obtain ⟨_, _, -, hreplaced, -⟩ := client_rules_keep_points hmem "app.getAuth();".toList
  have hsegs : segments (substitution (serviceClient "auth" "getAuth")
      "supabaseClient.auth.admin".toList) "app.getAuth();".toList =
      "app.".toList.map .kept ++ .replaced "getAuth()".toList "supabaseClient.auth.admin".toList ::
        [.kept ';'] := by decide +kernel
  obtain ⟨-, happly, -, -, hpoint⟩ := hreplaced _ _ _ _ hsegs
  have hbefore : EndsInPoint (before ("app.".toList.map .kept)) := by decide
  exact ⟨_, hmem, rfl, happly, _, _, hsegs, hbefore, hpoint.2 hbefore⟩

/-- A member of another object is replaced like a construct that stands free. -/
theorem client_rule_replaces_member : ¬∀ rule ∈ clientRules, ∀ (t : Text) (s₁ : List Segment)
    (old put : Text) (s₂ : List Segment),
      segments rule.action.edit t = s₁ ++ .replaced old put :: s₂ → ¬EndsInPoint (after s₁) := by
  intro h
  have hmem : ⟨"firestore_client", .substitute (serviceClient "firestore" "getFirestore")
      "supabaseClient"⟩ ∈ clientRules := by decide
  have hsegs : segments (substitution (serviceClient "firestore" "getFirestore")
      "supabaseClient".toList) "app.admin.firestore();".toList =
      "app.".toList.map .kept ++ .replaced "admin.firestore()".toList "supabaseClient".toList ::
        [.kept ';'] := by decide +kernel
  exact h _ hmem _ _ _ _ _ hsegs (by decide)

end BackendMigration.Adaptation
