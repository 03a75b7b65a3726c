import BackendMigration.Inventory.Listing
import BackendMigration.Proofs.Pattern.Matches
import BackendMigration.Proofs.Pattern.Whole
import BackendMigration.Proofs.Text.Pieces

/-! The address in a line is the first run of characters that begins with the scheme and goes on behind
it. -/
namespace BackendMigration.Inventory

open Pattern

/-- What an address begins with. -/
def scheme : Text := "https://".toList

/-- The address at the start of a text: the run up to a character that ends it, if it begins with the scheme
and has more behind it. -/
def addressAt? (ends : Char → Bool) (t : Text) : Option Text :=
  let run := t.takeWhile fun c => !ends c
  if scheme <+: run ∧ scheme.length < run.length then some run else none

/-- The first address in a text. -/
def address? (ends : Char → Bool) : Text → Option Text
  | [] => none
  | c :: r => (addressAt? ends (c :: r)).or (address? ends r)

/-- White space and bars end an address in a line. -/
def endsAddress (c : Char) : Bool := Text.isBlank c || isBar c

variable {ends ends' : Char → Bool} {c : Char} {t a b front : Text}

/-! An address is looked for between the characters that end one. -/

theorem takeWhile_append_cons (hc : ends c = true) (a b : Text) :
    (a ++ c :: b).takeWhile (fun c => !ends c) = a.takeWhile fun c => !ends c := by
  induction a with
  | nil => simp [hc]
  | cons d a ih => simp [List.takeWhile_cons, ih]

theorem address?_append_cons (hc : ends c = true) (a b : Text) :
    address? ends (a ++ c :: b) = (address? ends a).or (address? ends b) := by
  induction a with
  | nil =>
    have hnone : addressAt? ends (c :: b) = none := by
      simp [addressAt?, hc]
    have hnil : address? ends [] = none := rfl
    rw [List.nil_append, hnil, Option.none_or, address?, hnone, Option.none_or]
  | cons d a ih =>
    have hat : addressAt? ends (d :: (a ++ c :: b)) = addressAt? ends (d :: a) := by
      rw [addressAt?, addressAt?, ← List.cons_append, takeWhile_append_cons hc]
    rw [List.cons_append, address?, address?, hat, ih, Option.or_assoc]

theorem address?_append_left (ha : ∀ c ∈ a, ends c = true) (t : Text) :
    address? ends (a ++ t) = address? ends t := by
  induction a with
  | nil => rfl
  | cons c a ih =>
    have hfirst := address?_append_cons (ha c List.mem_cons_self) [] (a ++ t)
    rw [List.cons_append, ← ih fun d hd => ha d (List.mem_cons_of_mem c hd)]
    exact hfirst

theorem address?_append_right (hb : ∀ c ∈ b, ends c = true) (t : Text) :
    address? ends (t ++ b) = address? ends t := by
  cases b with
  | nil => rw [List.append_nil]
  | cons c b =>
    have hnone := address?_append_left (fun d hd => hb d (List.mem_cons_of_mem c hd)) []
    rw [List.append_nil] at hnone
    rw [address?_append_cons (hb c List.mem_cons_self), hnone, address?, Option.or_none]

theorem takeWhile_congr {f g : Char → Bool} (h : ∀ c ∈ t, f c = g c) : t.takeWhile f = t.takeWhile g := by
  induction t with
  | nil => rfl
  | cons c t ih =>
    have ih := ih fun d hd => h d (List.mem_cons_of_mem c hd)
    rw [List.takeWhile_cons, List.takeWhile_cons, h c List.mem_cons_self, ih]

theorem address?_congr (h : ∀ c ∈ t, ends c = ends' c) : address? ends t = address? ends' t := by
  induction t with
  | nil => rfl
  | cons c t ih =>
    have hrun : (c :: t).takeWhile (fun c => !ends c) = (c :: t).takeWhile fun c => !ends' c :=
      takeWhile_congr fun d hd => by rw [h d hd]
    rw [address?, address?, addressAt?, addressAt?, hrun, ih fun d hd => h d (List.mem_cons_of_mem c hd)]

/-! The pattern finds it. -/

theorem holds_address (c : Char) :
    (CharClass.except (.union .blank (.oneOf bars))).holds c = !endsAddress c := by
  rw [CharClass.holds_except, CharClass.holds_union, CharClass.holds_oneOf]
  rfl

theorem endsAddress_of_mem_scheme : ∀ c ∈ scheme, endsAddress c = false := by
  have hall : scheme.all (fun c => !endsAddress c) = true := by decide
  simpa using hall

theorem addressAt?_of_goes_on (hc : endsAddress c = false) (t : Text) :
    addressAt? endsAddress (scheme ++ c :: t) =
      some (scheme ++ c :: t.takeWhile fun c => !endsAddress c) := by
  have hrun : (scheme ++ c :: t).takeWhile (fun c => !endsAddress c) =
      scheme ++ c :: t.takeWhile fun c => !endsAddress c := by
    rw [List.takeWhile_append_of_pos fun d hd => by rw [endsAddress_of_mem_scheme d hd]; rfl,
      List.takeWhile_cons_of_pos (by rw [hc]; rfl)]
  rw [addressAt?, hrun, if_pos ⟨List.prefix_append _ _, by simp⟩]

/-- A run with the scheme in front and more behind it is what the pattern takes. -/
theorem spells_urlPattern (hall : ∀ c ∈ t, endsAddress c = false) (hscheme : scheme <+: t)
    (hlength : scheme.length < t.length) : urlPattern.Spells t := by
  obtain ⟨rest, rfl⟩ := hscheme
  have hne : rest ≠ [] := by
    rintro rfl
    simp at hlength
  have hrest : (repeated (one (.except (.union .blank (.oneOf bars))))).Spells rest := by
    refine spells_repeated_one.2 ⟨hne, fun c hc => ?_⟩
    rw [holds_address, hall c (List.mem_append_right _ hc)]
    rfl
  exact ⟨scheme, rest, spells_text.2 rfl, ⟨rest, [], hrest, rfl, (List.append_nil rest).symm⟩, rfl⟩

theorem map_text_matchAt? (front t : Text) :
    (urlPattern.matchAt? (.between front t)).map (·.text) = addressAt? endsAddress t := by
  cases hm : urlPattern.matchAt? (.between front t) with
  | some m =>
    have hm : urlPattern.matchThen _ (.between front t) [] = some m := hm
    obtain ⟨s, r, hs, rfl, hm⟩ := exists_of_matchThen_cons (p := text "https://") rfl hm
    obtain rfl : s = scheme := spells_text.1 hs
    obtain ⟨_, r, ⟨c, hc, rfl⟩, rfl, hm⟩ := exists_of_matchThen (p := one _) rfl hm
    have hc : endsAddress c = false := by
      rw [← Bool.not_eq_true', ← holds_address]
      exact hc
    rw [matchThen_many_one (fun _ _ => rfl), funext holds_address] at hm
    obtain rfl := Option.some.inj hm
    have hrun : scheme ++ ([c] ++ r) =
        (scheme ++ c :: r.takeWhile fun c => !endsAddress c) ++ r.dropWhile fun c => !endsAddress c := by
      simp
    have hat := addressAt?_of_goes_on hc r
    rw [← List.singleton_append] at hat
    rw [hat]
    dsimp only [Cursor.between, Option.map_some]
    rw [hrun, List.take_left' (by simp)]
  | none =>
    rw [addressAt?, if_neg]
    · rfl
    · rintro ⟨hscheme, hlength⟩
      have hall : ∀ c ∈ t.takeWhile (fun c => !endsAddress c), endsAddress c = false :=
        fun c hc => by simpa using List.all_eq_true.1 List.all_takeWhile c hc
      have htakes := takes_of_spells (by decide) (spells_urlPattern hall hscheme hlength) front
        (t.dropWhile fun c => !endsAddress c)
      rw [List.takeWhile_append_dropWhile] at htakes
      have hsome := isSome_matchAt?_iff.2 ⟨_, htakes⟩
      rw [hm] at hsome
      cases hsome

theorem map_text_search? (front t : Text) :
    (urlPattern.search? (.between front t)).map (·.text) = address? endsAddress t := by
  induction t generalizing front with
  | nil => exact map_text_matchAt? front []
  | cons c t ih =>
    rw [search?_between_cons, Option.map_or, map_text_matchAt?, ih]
    rfl

theorem map_search?_urlPattern (line : Text) :
    ((urlPattern.search? (.start line)).map fun m => String.ofList m.text) =
      (address? endsAddress line).map String.ofList := by
  rw [← map_text_search? [] line, Option.map_map]
  rfl

theorem address?_strip (t : Text) : address? endsAddress (Text.strip t) = address? endsAddress t := by
  obtain ⟨w, w', ht, hw, hw'⟩ := Text.exists_strip t
  have hends {b : Text} (hb : Text.allBlank b = true) : ∀ c ∈ b, endsAddress c = true := by
    intro c hc
    rw [endsAddress, List.all_eq_true.1 hb c hc, Bool.true_or]
  have hwhole : address? endsAddress t = address? endsAddress (w ++ (Text.strip t ++ w')) := by
    rw [← ht]
  rw [hwhole, address?_append_left (hends hw), address?_append_right (hends hw')]

end BackendMigration.Inventory
