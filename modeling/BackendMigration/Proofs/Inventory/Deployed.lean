import BackendMigration.Inventory.Deployed
import Mathlib.Data.List.Forall2
import Mathlib.Data.List.Nodup

/-! The functions deployed to a project: whatever comes of the client's commands, there is one record for
each function listed, one warning for each whose source is not to be had, and one command for each. -/
namespace BackendMigration.Inventory

open Document (Value)

theorem strip_of_ends {a b : Char} (ha : Text.isBlank a = false) (hb : Text.isBlank b = false)
    (t : Text) : Text.strip (a :: (t ++ [b])) = a :: (t ++ [b]) := by
  simp [Text.strip, Text.trim, Text.trimStart, Text.trimEnd, ha, hb]

/-- The text around the name in what stands in for a body. -/
theorem toList_placeholderBody (name : String) : ∃ front back : Text, minBodyLength < front.length ∧
    (placeholderBody name).toList = '\x7b' :: (front ++ name.toList ++ back ++ ['\x7d']) := by
  have hopen : "\x7b\n  // Source for ".toList = '\x7b' :: "\n  // Source for ".toList := by
    decide
  have hclose : "  // Port the deployed implementation here.\n\x7d".toList =
      "  // Port the deployed implementation here.\n".toList ++ ['\x7d'] := by
    decide
  have hlong : minBodyLength < "\n  // Source for ".toList.length := by decide
  -- with the fixed texts as variables, so that nothing evaluates them
  have hparts (a b : Char) (p q r s : Text) :
      a :: p ++ q ++ r ++ (s ++ [b]) = a :: (p ++ q ++ (r ++ s) ++ [b]) := by simp
  have htext : (placeholderBody name).toList = "\x7b\n  // Source for ".toList ++ name.toList ++
      " could not be retrieved from the Firebase project.\n".toList ++
      "  // Port the deployed implementation here.\n\x7d".toList := by
    unfold placeholderBody
    rw [String.toList_append, String.toList_append, String.toList_append]
  rw [hopen, hclose, hparts] at htext
  exact ⟨_, _, hlong, htext⟩
/-- What stands in for a body is long enough to be one. -/
theorem hasMeaningfulBody_placeholder (project : Value) (f : Listed) :
    (placeholder project f).hasMeaningfulBody = true := by
  obtain ⟨front, back, hlong, hbody⟩ := toList_placeholderBody f.name
  have hstrip := strip_of_ends (a := '\x7b') (b := '\x7d') (by decide) (by decide)
    (front ++ f.name.toList ++ back)
  rw [FunctionRecord.hasMeaningfulBody, placeholder, hbody, hstrip, decide_eq_true_iff]
  simp only [List.length_cons, List.length_append]
  omega

variable (registry : Registry) (client : Client) (project : Value)

/-- What is printed for the source of a function declares, at first, the function of its own name. -/
def DeclaredFirst (name : String) (r : FunctionRecord) : Prop :=
  ∃ output front back, (client.reply (sourceArguments project name)).text? = some output ∧
    Recognition.scan registry output.toList (projectSource project ++ "/" ++ name) =
      front ++ r :: back ∧
    r.name = name ∧ ∀ r' ∈ front, r'.name ≠ name

/-- The source of a function is to be had: it is printed, and declares a function of that name. -/
def HasSource (name : String) : Prop := ∃ r, DeclaredFirst registry client project name r

variable {registry client project} {f : Listed} {name : String} {r : FunctionRecord}

theorem fetchedRecord?_eq_some_iff :
    fetchedRecord? registry client project name = some r ↔
      DeclaredFirst registry client project name r := by
  unfold fetchedRecord? DeclaredFirst
  cases (client.reply (sourceArguments project name)).text? with
  | none => simp
  | some output =>
    simp only [List.find?_eq_some_iff_append, beq_iff_eq, Bool.not_eq_true', beq_eq_false_iff_ne]
    constructor
    · rintro ⟨hname, front, back, hscan, hfront⟩
      exact ⟨output, front, back, rfl, hscan, hname, hfront⟩
    · rintro ⟨_, front, back, ⟨⟩, hscan, hname, hfront⟩
      exact ⟨hname, front, back, hscan, hfront⟩

theorem isSome_fetchedRecord?_iff :
    (fetchedRecord? registry client project name).isSome = true ↔
      HasSource registry client project name := by
  simp only [Option.isSome_iff_exists, fetchedRecord?_eq_some_iff, HasSource]

instance (name : String) : Decidable (HasSource registry client project name) :=
  decidable_of_iff _ isSome_fetchedRecord?_iff

variable (registry client project)

/-- The record of a listed function: from its source, with the address from the list, or one that stands
in for it. -/
inductive Recorded (f : Listed) : FunctionRecord → Prop
  | fetched (r : FunctionRecord) (h : DeclaredFirst registry client project f.name r) :
      Recorded f { r with url := f.url }
  | placeholder (r : FunctionRecord) (h : ¬ HasSource registry client project f.name)
      (name_eq : r.name = f.name) (kind_eq : r.kind = classifyTrigger f.trigger)
      (url_eq : r.url = f.url) (body_eq : r.body = placeholderBody f.name)
      (meaningful : r.hasMeaningfulBody = true) : Recorded f r

variable {registry client project}

theorem recorded_listedRecord (f : Listed) :
    Recorded registry client project f (listedRecord registry client project f).1 ∧
      (listedRecord registry client project f).2 =
        if HasSource registry client project f.name then [] else [noSourceWarning f.name] := by
  unfold listedRecord
  cases h : fetchedRecord? registry client project f.name with
  | some r =>
    have hr := fetchedRecord?_eq_some_iff.1 h
    exact ⟨.fetched r hr, (if_pos ⟨r, hr⟩).symm⟩
  | none =>
    have hno : ¬ HasSource registry client project f.name := by
      rw [← isSome_fetchedRecord?_iff, h]
      exact Bool.false_ne_true
    exact ⟨.placeholder _ hno rfl rfl rfl rfl (hasMeaningfulBody_placeholder project f),
      (if_neg hno).symm⟩

theorem url_listedRecord (f : Listed) : (listedRecord registry client project f).1.url = f.url := by
  unfold listedRecord
  cases fetchedRecord? registry client project f.name <;> rfl

variable (registry client project)

/-- What is found where functions are listed. -/
structure Listing (listing : List Listed) (e : Extraction) : Prop where
  names_eq : e.records.map (·.name) = listing.map (·.name)
  nodup : (e.records.map (·.name)).Nodup
  urls_eq : e.records.map (·.url) = listing.map (·.url)
  recorded : List.Forall₂ (Recorded registry client project) listing e.records
  warnings_eq : e.warnings =
    (listing.filter fun f => ¬ HasSource registry client project f.name).map
      fun f => noSourceWarning f.name

theorem listing_of_map {listing : List Listed} {e : Extraction} (hn : (listing.map (·.name)).Nodup)
    (hr : e.records = (listing.map (listedRecord registry client project)).map (·.1))
    (hw : e.warnings = (listing.map (listedRecord registry client project)).flatMap (·.2)) :
    Listing registry client project listing e := by
  have hnames : e.records.map (·.name) = listing.map (·.name) := by
    rw [hr, List.map_map, List.map_map]
    exact List.map_congr_left fun f _ => name_listedRecord registry client project f
  constructor
  · exact hnames
  · rwa [hnames]
  · rw [hr, List.map_map, List.map_map]
    exact List.map_congr_left fun f _ => url_listedRecord f
  · rw [hr, List.map_map, List.forall₂_map_right_iff, List.forall₂_same]
    exact fun f _ => (recorded_listedRecord f).1
  · rw [hw]
    clear hn hr hw hnames
    induction listing with
    | nil => rfl
    | cons f rest ih =>
      rw [List.map_cons, List.flatMap_cons, ih, (recorded_listedRecord f).2]
      by_cases h : HasSource registry client project f.name <;> simp [h]

variable {client project}

theorem nodup_readListing (output : String) : ((readListing output).map (·.name)).Nodup :=
  nodup_distinctNames _ _

end BackendMigration.Inventory
