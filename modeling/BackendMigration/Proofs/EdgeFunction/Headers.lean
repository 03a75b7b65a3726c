import BackendMigration.Proofs.Adaptation.Words
import BackendMigration.Proofs.EdgeFunction.Page

/-! Where the code of edge functions mentions the headers for other origins, and where it declares
them. -/
namespace BackendMigration.EdgeFunction

open Adaptation (headersName)

/-- The texts behind what the page of a record says that it listened to. -/
def originTexts (r : FunctionRecord) : List String :=
  if let some path := nonempty? r.documentPath then [path, spelledOut r.documentEvent]
  else if let some event := nonempty? r.identityEvent then [event]
  else if let some event := nonempty? r.blobEvent then [event]
  else if let some topic := nonempty? r.topic then [topic]
  else []

/-- The texts that the page of a function shows above its body. -/
def headTexts (r : FunctionRecord) : List String :=
  r.name :: if r.kind = .timeSchedule then [r.schedule.getD ""] else originTexts r

theorem foreign_notes_headersName : Foreign headersName where
  ne_nil := by decide
  unbroken := by decide
  parts := by
    simp only [noteParts, List.forall_mem_cons]
    repeat rw [String.toList_ofList]
    decide
  kinds := by
    simp only [TriggerKind.all, TriggerKind.name, List.forall_mem_cons, mentions]
    repeat rw [String.toList_ofList]
    decide
  lines := by
    simp only [noteLines, List.forall_mem_cons, mentions, String.reduceAppend]
    repeat rw [String.toList_ofList]
    decide +kernel

theorem mentions_notesComment (r : FunctionRecord) (functionUrl : String) (needsReview : Bool) :
    mentions headersName
        (notesComment r.kind.name r.sourceFile (notes r functionUrl) needsReview) =
      (notedTexts r functionUrl).any (mentions headersName) := by
  have hlines : notesComment r.kind.name r.sourceFile (notes r functionUrl) needsReview =
      linesText ("/* Migration Notes:" ::
        (innerLines r.kind.name r.sourceFile (notes r functionUrl) needsReview ++ [" */"])) := by
    simp only [notesComment, innerLines, List.cons_append, List.nil_append, List.append_assoc]
  have hfirst : mentions headersName "/* Migration Notes:" = false := by
    rw [mentions, String.toList_ofList]
    decide
  have hlast : mentions headersName " */" = false := by decide
  rw [hlines, mentions_linesText (by decide) (by decide), List.any_cons, List.any_append, hfirst,
    foreign_notes_headersName.any_mentions_innerLines]
  simp [hlast]

/-- Spaces before the lines of a text add nothing to it. -/
theorem occursIn_indent {needle : Text} (hn : needle ≠ []) (hc : '\n' ∉ needle)
    (hs : ' ' ∉ needle) (spaces : Nat) (t : Text) :
    Text.occursIn needle (Text.indent spaces t) = Text.occursIn needle t := by
  have hspaces : Text.occursIn needle (List.replicate spaces ' ') = false := by
    rw [← Bool.not_eq_true, Text.occursIn_iff]
    intro h
    obtain ⟨a, r, rfl⟩ := List.exists_cons_of_ne_nil hn
    have := List.eq_of_mem_replicate (h.subset List.mem_cons_self)
    simp [this] at hs
  have hlast : ∀ a ∈ (List.replicate spaces ' ').getLast?, a ∉ needle.dropLast := by
    intro a ha hm
    rw [List.eq_of_mem_replicate (List.mem_of_getLast? ha)] at hm
    exact hs (List.mem_of_mem_dropLast hm)
  have hline : (Text.occursIn needle ∘ fun line =>
      if Text.allBlank line then line else List.replicate spaces ' ' ++ line) =
        Text.occursIn needle := by
    funext line
    rw [Function.comp_apply]
    split
    · rfl
    · exact Text.occursIn_fixed_append ⟨hspaces, hlast⟩ line
  have hjoin := Text.join_splitBy '\n' t
  rw [Text.indent, Text.occursIn_join hn hc, List.any_map, hline, Text.lines,
    ← Text.occursIn_join hn hc, hjoin]

theorem mentions_origin (r : FunctionRecord) :
    mentions headersName (origin r) = (originTexts r).any (mentions headersName) := by
  unfold origin originTexts
  cases nonempty? r.documentPath with
  | some path =>
    have hclosed : mentions headersName (path ++ " (" ++ spelledOut r.documentEvent ++ ")") =
        (mentions headersName path || mentions headersName (spelledOut r.documentEvent)) := by
      rw [mentions_append_fixed (by decide),
        mentions_append_fixed_append (by decide) (by decide) (by decide)]
    simpa using hclosed
  | none =>
    cases nonempty? r.identityEvent with
    | some event =>
      have hleads : Text.Leads headersName "auth.user().".toList := by
        rw [String.toList_ofList]
        decide
      simpa using mentions_fixed_append hleads event
    | none =>
      cases nonempty? r.blobEvent with
      | some event =>
        have hleads : Text.Leads headersName "storage.object().".toList := by
          rw [String.toList_ofList]
          decide
        simpa using mentions_fixed_append hleads event
      | none =>
        cases nonempty? r.topic with
        | some topic =>
          have hleads : Text.Leads headersName "pubsub.topic('".toList := by
            rw [String.toList_ofList]
            decide
          have hclosed : mentions headersName ("pubsub.topic('" ++ topic ++ "')") =
              mentions headersName topic := by
            rw [mentions_append_fixed (by decide), mentions_fixed_append hleads]
          simpa using hclosed
        | none => exact mentions_empty (by decide)

theorem mentions_imports : mentions headersName imports = false := by
  rw [imports, mentions_linesText (by decide) (by decide)]
  simp only [List.any_cons, mentions]
  repeat rw [String.toList_ofList]
  decide

theorem mentions_client : mentions headersName client = false := by
  rw [client, mentions_linesText (by decide) (by decide)]
  simp only [List.any_cons, mentions]
  repeat rw [String.toList_ofList]
  decide

theorem any_mentions_failure {title : String} (ht : mentions headersName title = false) :
    (failure title).any (mentions headersName) = false := by
  have hends : Text.Leads headersName "    console.error('".toList ∧
      Text.Trails headersName " error:', error)".toList := by
    repeat rw [String.toList_ofList]
    decide
  have htitle : mentions headersName ("    console.error('" ++ title ++ " error:', error)") = false := by
    rw [mentions_append_fixed hends.2, mentions_fixed_append hends.1, ht]
  rw [failure, List.any_cons, List.any_cons, htitle]
  simp only [List.any_cons, mentions]
  repeat rw [String.toList_ofList]
  decide

theorem mentions_label (kind : TriggerKind) : mentions headersName (label kind) = false := by
  have htitles : ∀ title ∈ ["Firestore", "Auth", "Storage", "Pub/Sub"],
      mentions headersName title = false := by
    decide
  unfold label
  split_ifs
  · exact htitles _ (by simp)
  · exact htitles _ (by simp)
  · exact htitles _ (by simp)
  · exact htitles _ (by simp)
  · exact foreign_notes_headersName.kinds _ kind.mem_all

theorem mentions_webhookPage (kind : TriggerKind) (name origin body comment : String) :
    mentions headersName (webhookPage (label kind) name origin body comment) =
      (mentions headersName name || mentions headersName origin || mentions headersName body ||
        mentions headersName comment) := by
  have hfirst : mentions headersName
      ("// Migrated from Firebase " ++ label kind ++ " trigger: " ++ name) =
        mentions headersName name := by
    have hends : Text.Leads headersName "// Migrated from Firebase ".toList ∧
        Text.Leads headersName " trigger: ".toList ∧ Text.Trails headersName " trigger: ".toList := by
      repeat rw [String.toList_ofList]
      decide
    rw [mentions_append_fixed_append hends.2.1 hends.2.2 (by decide),
      mentions_fixed_append hends.1, mentions_label, Bool.false_or]
  have htitle : mentions headersName "Webhook" = false := by decide
  have horigin : (if origin.isEmpty then [] else ["// Original trigger: " ++ origin]).any
      (mentions headersName) = mentions headersName origin := by
    split
    · rename_i hempty
      obtain rfl := String.isEmpty_iff.1 hempty
      exact (mentions_empty (by decide)).symm
    · have hleads : Text.Leads headersName "// Original trigger: ".toList := by
        rw [String.toList_ofList]
        decide
      simp [mentions_fixed_append hleads]
  rw [webhookPage, mentions_linesText_append (by decide) (by decide)]
  simp only [List.any_append, List.any_cons, hfirst, horigin, mentions_imports, mentions_client,
    any_mentions_failure htitle]
  generalize mentions headersName name = a, mentions headersName origin = b,
    mentions headersName body = c, mentions headersName comment = d
  simp only [mentions]
  repeat rw [String.toList_ofList]
  revert a b c d
  decide

theorem mentions_scheduledPage (name schedule body comment : String) :
    mentions headersName (scheduledPage name schedule body comment) =
      (mentions headersName name || mentions headersName schedule || mentions headersName body ||
        mentions headersName comment) := by
  have hfirst : mentions headersName ("// Migrated from Firebase scheduled function: " ++ name) =
      mentions headersName name := by
    rw [mentions_fixed_append]
    rw [String.toList_ofList]
    decide
  have htitle : mentions headersName "Scheduled function" = false := by decide
  have hschedule : mentions headersName
      ("// Original schedule: " ++ (if schedule.isEmpty then "N/A" else schedule)) =
        mentions headersName schedule := by
    have hleads : Text.Leads headersName "// Original schedule: ".toList := by
      rw [String.toList_ofList]
      decide
    rw [mentions_fixed_append hleads]
    split
    · rename_i hempty
      obtain rfl := String.isEmpty_iff.1 hempty
      decide
    · rfl
  rw [scheduledPage, mentions_linesText_append (by decide) (by decide)]
  simp only [List.any_append, List.any_cons, hfirst, hschedule, mentions_imports, mentions_client,
    any_mentions_failure htitle]
  generalize mentions headersName name = a, mentions headersName schedule = b,
    mentions headersName body = c, mentions headersName comment = d
  simp only [mentions]
  repeat rw [String.toList_ofList]
  revert a b c d
  decide

/-- The texts of a record that its unit shows outside of the body. -/
def shownTexts (g : Generator) (r : FunctionRecord) : List String :=
  headTexts r ++ notedTexts r (g.functionUrl r.name)

theorem mentions_body (body : Text) :
    mentions headersName (String.ofList (Text.indent bodyIndent body)) =
      Text.occursIn headersName body := by
  rw [mentions, String.toList_ofList, occursIn_indent (by decide) (by decide) (by decide)]

theorem infix_page_of_isHttpShaped {r : FunctionRecord} (hk : r.kind.isHttpShaped = true)
    (body comment : String) : corsHeaders.toList <:+: (page r body comment).toList := by
  have hpage (lines : List String) (h : corsHeaders ∈ lines) :
      corsHeaders.toList <:+: (linesText lines ++ comment).toList := by
    rw [String.toList_append]
    exact (infix_linesText h).trans (List.prefix_append _ _).isInfix
  have hcases : r.kind = .http ∨ r.kind = .callable := by
    revert hk
    cases r.kind <;> simp [TriggerKind.isHttpShaped]
  rcases hcases with hk | hk
  · have hhttp : page r body comment = httpPage r.name body comment := by rw [page, hk]
    rw [hhttp]
    exact hpage _ (by simp)
  · have hcallable : page r body comment = callablePage r.name body comment := by rw [page, hk]
    rw [hcallable]
    exact hpage _ (by simp)

theorem mentions_page {r : FunctionRecord} (hk : r.kind.isHttpShaped = false)
    (body comment : String) :
    mentions headersName (page r body comment) =
      ((headTexts r).any (mentions headersName) || mentions headersName body ||
        mentions headersName comment) := by
  by_cases ht : r.kind = .timeSchedule
  · have hpage : page r body comment = scheduledPage r.name (r.schedule.getD "") body comment := by
      rw [page, ht]
    rw [hpage, mentions_scheduledPage, headTexts, if_pos ht]
    simp
  · have hpage : page r body comment =
        webhookPage (label r.kind) r.name (origin r) body comment := by
      unfold page
      split <;> simp_all [TriggerKind.isHttpShaped]
    rw [hpage, mentions_webhookPage, mentions_origin, headTexts, if_neg ht, List.any_cons]

theorem mentions_unit_iff (g : Generator) {r : FunctionRecord} (hk : r.kind.isHttpShaped = false) :
    mentions headersName (g.unit r).code = true ↔
      Text.occursIn headersName (Adaptation.adapt g.rules r.body.toList) = true ∨
        ∃ s ∈ shownTexts g r, mentions headersName s = true := by
  have hpage : mentions headersName (g.unit r).code = _ := mentions_page hk _ _
  rw [hpage, mentions_body, mentions_notesComment, shownTexts, ← List.any_eq_true, List.any_append,
    Bool.or_eq_true, Bool.or_eq_true, Bool.or_eq_true]
  tauto

theorem infix_page (r : FunctionRecord) (body comment : String) :
    body.toList <:+: (page r body comment).toList := by
  have hpage (lines : List String) (h : body ∈ lines) :
      body.toList <:+: (linesText lines ++ comment).toList := by
    rw [String.toList_append]
    exact (infix_linesText h).trans (List.prefix_append _ _).isInfix
  unfold page
  split
  · exact hpage _ (by simp)
  · exact hpage _ (by simp)
  · exact hpage _ (by simp)
  · exact hpage _ (by simp)

theorem mentions_unit_of_body (g : Generator) {r : FunctionRecord}
    (h : Text.occursIn headersName (Adaptation.adapt g.rules r.body.toList) = true) :
    mentions headersName (g.unit r).code = true := by
  rw [← mentions_body] at h
  exact Text.occursIn_of_isInfix h (infix_page r _ _)

/-- The code of a function that browsers call declares the headers. That of any other function
mentions them exactly if its adapted body does, or a text of the record that it shows; and an adapted
body does if the body did, or if an answer with JSON was converted in it. -/
theorem unit_mentions_headers {g : Generator} {r : FunctionRecord} {u : GeneratedUnit}
    (h : g.generate r = .ok (some u)) :
    (r.kind.isHttpShaped = true → corsHeaders.toList <:+: u.code.toList) ∧
    (r.kind.isHttpShaped = false →
      (mentions headersName u.code = true ↔
        Text.occursIn headersName (Adaptation.adapt g.rules r.body.toList) = true ∨
          ∃ s ∈ shownTexts g r, mentions headersName s = true)) ∧
    ((∀ rule ∈ g.rules, rule ∈ Adaptation.Rule.all) →
      (mentions headersName r.body = true ∨ ∃ step ∈ Adaptation.steps g.rules r.body.toList,
        step.1 = "status_json" ∨ step.1 = "json") →
      mentions headersName u.code = true) := by
  obtain rfl := Generator.eq_unit_of_generate h
  refine ⟨fun hk => infix_page_of_isHttpShaped hk _ _, fun hk => mentions_unit_iff g hk, ?_⟩
  intro hr hbody
  apply mentions_unit_of_body
  apply Adaptation.occursIn_adapt
  rcases hbody with hbody | ⟨⟨name, t⟩, hs, hname⟩
  · exact Adaptation.foreign_headersName.occursIn_applyAll hr hbody
  · exact Adaptation.occursIn_applyAll_of_answersJson hr hs hname

/-- A function that an event runs, with a body. -/
def notify (body : String) : FunctionRecord where
  name := "notify"
  kind := .documentCreate
  body := body

theorem generate_notify (body : String) : Generator.standard.generate (notify body) =
    .ok (some (Generator.standard.unit (notify body))) :=
  Generator.generate_eq_unit (by simp [notify, Generator.standard, TriggerKind.all])
    (by decide : scheduleFault? none = none)

/-- An answer without JSON needs no headers. -/
theorem notify_send_is_closed :
    let r := notify "res.send(x);"
    let u := Generator.standard.unit r
    Generator.standard.generate r = .ok (some u) ∧ mentions headersName u.code = false := by
  intro r u
  have hu : Generator.standard.generate r = .ok (some u) := generate_notify _
  have hbody : Text.occursIn headersName (Adaptation.adapt Generator.standard.rules r.body.toList) =
      false := by
    decide
  have hshown : ∀ s ∈ shownTexts Generator.standard r, mentions headersName s = false := by
    decide
  have hmentions := (unit_mentions_headers hu).2.1 rfl
  refine ⟨hu, ?_⟩
  rw [← Bool.not_eq_true, hmentions, hbody]
  rintro (h | ⟨s, hs, h⟩)
  · cases h
  · rw [hshown s hs] at h
    cases h

/-- An answer with JSON in a function that an event runs leaves the name in its code, although its
own body did not mention it. -/
theorem notify_json_is_open :
    let r := notify "res.json(x);"
    let u := Generator.standard.unit r
    r.kind.isWebhookShaped = true ∧ mentions headersName r.body = false ∧
      Generator.standard.generate r = .ok (some u) ∧ mentions headersName u.code = true := by
  intro r u
  have hstep : ∃ step ∈ Adaptation.steps Generator.standard.rules r.body.toList,
      step.1 = "status_json" ∨ step.1 = "json" := by
    decide
  obtain ⟨⟨name, t⟩, hs, hname⟩ := hstep
  have hbody := Adaptation.occursIn_applyAll_of_answersJson (fun _ h => h) hs hname
  exact ⟨rfl, by decide, generate_notify _,
    mentions_unit_of_body _ (Adaptation.occursIn_adapt hbody)⟩

end BackendMigration.EdgeFunction
