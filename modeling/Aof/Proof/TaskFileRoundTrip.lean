import Aof.Lib.LineText
import Aof.Store.Frontmatter

/-!
# A task file is read back

What the serializer writes is read back, whatever fences and blank lines the body contains, unless
the text of the frontmatter ends in an empty line.
-/

namespace Aof

theorem toList_trimText (text : String) :
    (trimText text).toList = Trim.trim JsString.isWhitespace text.toList :=
  String.toList_ofList

theorem trimText_trimText (text : String) : trimText (trimText text) = trimText text := by
  apply String.toList_inj.mp
  rw [toList_trimText, toList_trimText, Trim.trim_trim]

theorem lineBreak_blank : ∀ c ∈ ['\n'], JsString.isWhitespace c = true :=
  List.forall_mem_singleton.mpr (by decide)

theorem trimText_cons_lineBreak (text : List Char) :
    trimText (String.ofList ('\n' :: text)) = trimText (String.ofList text) := by
  apply String.toList_inj.mp
  rw [toList_trimText, toList_trimText, String.toList_ofList, String.toList_ofList]
  exact Trim.trim_append_left lineBreak_blank

theorem trimText_append_lineBreak (text : List Char) :
    trimText (String.ofList (text ++ ['\n'])) = trimText (String.ofList text) := by
  apply String.toList_inj.mp
  rw [toList_trimText, toList_trimText, String.toList_ofList, String.toList_ofList]
  exact Trim.trim_append_right lineBreak_blank

section Written

variable {yaml : Yaml} {value : JsValue}

/-- The value that is read where the last line break of the text is missing. -/
def reread (yaml : Yaml) (value : JsValue) : JsValue :=
  if endsInEmptyLine (yaml.stringify value) then dropLastBreak value else value

def yamlLines (yaml : Yaml) (value : JsValue) : List (List Char) :=
  (yaml.stringify value).toList.dropLast.splitOn '\n'

theorem Yaml.Lawful.append_lineBreak (hyaml : yaml.Lawful value) :
    (yaml.stringify value).toList.dropLast ++ ['\n'] = (yaml.stringify value).toList :=
  List.dropLast_append_getLast? _ hyaml.terminated

theorem Yaml.Lawful.not_mem_yamlLines (hyaml : yaml.Lawful value) :
    FENCE ∉ yamlLines yaml value := by
  intro hfence
  apply hyaml.fenceless
  rw [← hyaml.append_lineBreak, List.splitOn_append_cons_self]
  exact List.mem_append_left _ hfence

theorem Yaml.Lawful.parse_yamlLines (hyaml : yaml.Lawful value) :
    yaml.parse (joinLines (yamlLines yaml value)) = some (reread yaml value) := by
  rw [yamlLines, joinLines_splitOn]
  have hparse := hyaml.parse_chopped
  rw [hyaml.parse, Option.map_some] at hparse
  refine hparse.trans (congrArg some ?_)
  rw [reread]
  split <;> rfl

variable {content : String} {rest : List Char} {body : List (List Char)}

section

variable (hyaml : yaml.Lawful value)
  (hcontent : content.toList = FENCE ++ '\n' :: ((yaml.stringify value).toList ++ rest))
include hyaml hcontent

theorem Yaml.Lawful.splitOn_content :
    content.toList.splitOn '\n' = FENCE :: (yamlLines yaml value ++ rest.splitOn '\n') := by
  rw [hcontent, ← hyaml.append_lineBreak, List.splitOn_append_cons_self_of_not_mem (by decide),
    List.append_assoc, List.singleton_append, List.splitOn_append_cons_self]
  rfl

theorem Yaml.Lawful.splitFrontmatter_eq (hrest : rest.splitOn '\n' = FENCE :: body) :
    splitFrontmatter content = some ⟨yamlLines yaml value, body⟩ := by
  apply splitFrontmatter_of_lines _ hyaml.not_mem_yamlLines
  rw [hyaml.splitOn_content hcontent, hrest]

end

theorem splitOn_fence (rest : List Char) :
    (FENCE ++ '\n' :: rest).splitOn '\n' = FENCE :: rest.splitOn '\n' :=
  List.splitOn_append_cons_self_of_not_mem (by decide) rest

theorem Yaml.Lawful.parseTaskFile_iff (hyaml : yaml.Lawful value) {isDatetime : String → Bool}
    (hcontent : content.toList = FENCE ++ '\n' :: ((yaml.stringify value).toList ++ rest))
    (hrest : rest.splitOn '\n' = FENCE :: body) {task : ParsedTask} :
    parseTaskFile yaml isDatetime content = some task ↔
      Schemas.TaskFrontmatter isDatetime (reread yaml value) = some task.frontmatter ∧
        task.body = trimText (joinLines body) := by
  have hsplit := hyaml.splitFrontmatter_eq hcontent hrest
  rw [parseTaskFile_eq_some_iff]
  constructor
  · rintro ⟨text, rawFrontmatter, htext, hparse, hschema, hbody⟩
    obtain rfl := Option.some.inj (hsplit.symm.trans htext)
    obtain rfl := Option.some.inj (hyaml.parse_yamlLines.symm.trans hparse)
    exact ⟨hschema, hbody⟩
  · rintro ⟨hschema, hbody⟩
    exact ⟨_, _, hsplit, hyaml.parse_yamlLines, hschema, hbody⟩

theorem toList_fenced (text rest : String) : ("---\n" ++ text ++ "---" ++ rest).toList =
      FENCE ++ '\n' :: (text.toList ++ (FENCE ++ rest.toList)) := by
  simp [FENCE]

theorem toList_fenced_line (text rest : String) : ("---\n" ++ text ++ "---\n" ++ rest).toList =
      FENCE ++ '\n' :: (text.toList ++ (FENCE ++ '\n' :: rest.toList)) := by
  simp [FENCE]

end Written

section RoundTrip

variable (yaml : Yaml) (isDatetime : String → Bool)

/-- The file of a task is read back, with the body trimmed. -/
def ReadsBack (frontmatter : JsValue) (body : String) : Prop :=
  parseTaskFile yaml isDatetime (serializeTask yaml ⟨frontmatter, body⟩) =
    some ⟨frontmatter, trimText body⟩

/-- A file that has been read and written is read and written as it is. -/
def RewritesAlike (task : ParsedTask) : Prop :=
  ∀ raw, parseTaskFile yaml isDatetime raw = some task →
    ∃ reread, parseTaskFile yaml isDatetime (serializeTask yaml task) = some reread ∧
      serializeTask yaml reread = serializeTask yaml task

variable {yaml isDatetime} {frontmatter : JsValue}

theorem toList_serializeTask (body : String) : (serializeTask yaml ⟨frontmatter, body⟩).toList =
      FENCE ++ '\n' :: ((yaml.stringify frontmatter).toList ++
        (FENCE ++ '\n' :: ('\n' :: (body.toList ++ ['\n'])))) := by
  show ("---\n" ++ yaml.stringify frontmatter ++ "---\n\n" ++ body ++ "\n").toList = _
  simp [FENCE]

theorem body_serializeTask (body : String) :
    trimText (joinLines (('\n' :: (body.toList ++ ['\n'])).splitOn '\n')) = trimText body := by
  rw [joinLines_splitOn, trimText_cons_lineBreak, trimText_append_lineBreak, String.ofList_toList]

theorem parseTaskFile_serializeTask (hyaml : yaml.Lawful frontmatter) (body : String)
    {task : ParsedTask} :
    parseTaskFile yaml isDatetime (serializeTask yaml ⟨frontmatter, body⟩) = some task ↔
      Schemas.TaskFrontmatter isDatetime (reread yaml frontmatter) = some task.frontmatter ∧
        task.body = trimText body := by
  rw [hyaml.parseTaskFile_iff (toList_serializeTask body) (splitOn_fence _), body_serializeTask]

theorem readsBack_iff (hyaml : yaml.Lawful frontmatter)
    (hvalid : Schemas.TaskFrontmatter isDatetime frontmatter = some frontmatter) (body : String) :
    ReadsBack yaml isDatetime frontmatter body ↔
      endsInEmptyLine (yaml.stringify frontmatter) = false := by
  rw [ReadsBack, parseTaskFile_serializeTask hyaml, and_iff_left rfl, reread]
  cases hends : endsInEmptyLine (yaml.stringify frontmatter) with
  | false => exact iff_of_true hvalid rfl
  | true =>
      apply iff_of_false _ (by decide)
      exact (Schemas.lawful_taskFrontmatter isDatetime).faithful hvalid
        (edited_dropLastBreak frontmatter (hyaml.endsInBreak hends))

theorem ReadsBack.rewritesAlike {body : String}
    (hround : ReadsBack yaml isDatetime frontmatter body) :
    RewritesAlike yaml isDatetime ⟨frontmatter, body⟩ := by
  intro raw hraw
  obtain ⟨text, -, -, -, -, hbody⟩ := parseTaskFile_eq_some_iff.mp hraw
  have htrimmed : trimText body = body := by
    rw [show body = trimText (joinLines text.body) from hbody, trimText_trimText]
  refine ⟨_, hround, ?_⟩
  rw [htrimmed]

end RoundTrip

/-- For a valid frontmatter, a task file is read back and is rewritten as it is, exactly if the text
of the frontmatter does not end in an empty line. -/
theorem taskFile_roundTrip_iff (yaml : Yaml) (isDatetime : String → Bool) {frontmatter : JsValue}
    (hyaml : yaml.Lawful frontmatter)
    (hvalid : ∃ value, Schemas.TaskFrontmatter isDatetime value = some frontmatter)
    (body : String) : (ReadsBack yaml isDatetime frontmatter body ∧
        RewritesAlike yaml isDatetime ⟨frontmatter, body⟩) ↔
      endsInEmptyLine (yaml.stringify frontmatter) = false := by
  obtain ⟨value, hvalue⟩ := hvalid
  have hvalid := (Schemas.lawful_taskFrontmatter isDatetime).stable hvalue
  rw [← readsBack_iff hyaml hvalid body]
  exact and_iff_left_of_imp ReadsBack.rewritesAlike

def reportTime : String := "2026-01-01T00:00:00.000Z"

def reportFields (testsFile : String) : JsObject := [
  ("schemaVersion", .num (.finite 1)),
  ("id", .str "TASK-2026-01-01-001"),
  ("title", .str "Report"),
  ("status", .str "ready"),
  ("priority", .str "normal"),
  ("routing", .obj [("tags", .arr [])]),
  ("createdAt", .str reportTime),
  ("updatedAt", .str reportTime),
  ("lastTransitionAt", .str reportTime),
  ("createdBy", .str "system"),
  ("dependsOn", .arr []),
  ("metadata", .obj []),
  ("gateHistory", .arr []),
  ("tests", .arr []),
  ("testsFile", .str testsFile)]

def reportFrontmatter (testsFile : String) : JsValue := .obj (reportFields testsFile)

theorem valid_reportFrontmatter (testsFile : String) :
    Schemas.TaskFrontmatter (· == reportTime) (reportFrontmatter testsFile) =
      some (reportFrontmatter testsFile) := rfl

def reportLines : List (List Char) :=
  ["schemaVersion: 1", "id: TASK-2026-01-01-001", "title: Report", "status: ready",
    "priority: normal", "routing:", "  tags: []", "createdAt: 2026-01-01T00:00:00.000Z",
    "updatedAt: 2026-01-01T00:00:00.000Z", "lastTransitionAt: 2026-01-01T00:00:00.000Z",
    "createdBy: system", "dependsOn: []", "metadata: \x7b\x7d", "gateHistory: []",
    "tests: []"].map String.toList

def reportText (ending : String) : String :=
  String.ofList ((reportLines.flatMap fun line => line ++ ['\n']) ++ ending.toList)

theorem reportText_inj {ending other : String} :
    reportText ending = reportText other ↔ ending = other := by
  rw [reportText, reportText, String.ofList_inj, List.append_cancel_left_eq, String.toList_inj]

theorem chopped_reportText {ending : String} (hne : ending.toList ≠ []) :
    chopped (reportText ending) = reportText (chopped ending) := by
  rw [chopped, chopped, reportText, reportText, String.toList_ofList, String.toList_ofList,
    List.dropLast_append_of_ne_nil hne]

theorem endsInEmptyLine_reportText {ending : String} (hne : ending.toList.dropLast ≠ []) :
    endsInEmptyLine (reportText ending) = endsInEmptyLine ending := by
  have hending : ending.toList ≠ [] := fun h => hne (by rw [h]; rfl)
  rw [endsInEmptyLine, endsInEmptyLine, reportText, String.toList_ofList,
    List.dropLast_append_of_ne_nil hending, List.getLast?_append_of_ne_nil _ hne]

theorem splitOn_lines {lines : List (List Char)} (hlines : ∀ line ∈ lines, '\n' ∉ line)
    (rest : List Char) : ((lines.flatMap fun line => line ++ ['\n']) ++ rest).splitOn '\n' =
      lines ++ rest.splitOn '\n' := by
  induction lines with
  | nil => rfl
  | cons line lines ih =>
      rw [List.forall_mem_cons] at hlines
      rw [List.flatMap_cons, List.append_assoc, List.append_assoc, List.singleton_append,
        List.splitOn_append_cons_self_of_not_mem hlines.1, ih hlines.2, List.cons_append]

theorem lawful_reportText {yaml : Yaml} {value read : JsValue} {ending : String}
    (hwritten : yaml.stringify value = reportText ending)
    (hending : ending.toList.dropLast ≠ []) (hlast : ending.toList.getLast? = some '\n')
    (hfence : FENCE ∉ ending.toList.splitOn '\n')
    (hparse : yaml.parse (reportText ending) = some value)
    (hchopped : yaml.parse (reportText (chopped ending)) = some read)
    (hread : read = if endsInEmptyLine ending then dropLastBreak value else value)
    (hends : endsInEmptyLine ending → endsInBreak value = true) : yaml.Lawful value := by
  have hne : ending.toList ≠ [] := fun h => hending (by rw [h]; rfl)
  constructor <;> rw [hwritten]
  · exact hparse
  · rw [reportText, String.toList_ofList, List.getLast?_append_of_ne_nil _ hne, hlast]
  · rw [reportText, String.toList_ofList, splitOn_lines (by decide), List.mem_append]
    exact fun h => h.elim (by decide) hfence
  · rw [chopped_reportText hne, hchopped, hparse, endsInEmptyLine_reportText hending, hread]
    split <;> rfl
  · rw [endsInEmptyLine_reportText hending]
    exact hends

def reportYaml : Yaml where
  stringify value :=
    reportText (if endsInBreak value then "testsFile: |+\n  x\n\n" else "testsFile: x\n")
  parse text :=
    if text = reportText "testsFile: x\n" ∨ text = reportText "testsFile: x" then
      some (reportFrontmatter "x")
    else if text = reportText "testsFile: |+\n  x\n\n" then some (reportFrontmatter "x\n\n")
    else if text = reportText "testsFile: |+\n  x\n" then some (reportFrontmatter "x\n")
    else none

theorem parse_reportText (ending : String) :
    reportYaml.parse (reportText ending) =
      if ending = "testsFile: x\n" ∨ ending = "testsFile: x" then some (reportFrontmatter "x")
      else if ending = "testsFile: |+\n  x\n\n" then some (reportFrontmatter "x\n\n")
      else if ending = "testsFile: |+\n  x\n" then some (reportFrontmatter "x\n")
      else none := by
  simp only [reportYaml, reportText_inj]

theorem lawful_report : reportYaml.Lawful (reportFrontmatter "x") := by
  apply @lawful_reportText _ _ (reportFrontmatter "x") "testsFile: x\n"
  · exact congrArg reportText (if_neg (by decide +kernel))
  · decide +kernel
  · decide +kernel
  · decide +kernel
  · exact parse_reportText _
  · exact parse_reportText _
  · rfl
  · exact fun h => by cases h

theorem lawful_keptReport : reportYaml.Lawful (reportFrontmatter "x\n\n") := by
  apply @lawful_reportText _ _ (reportFrontmatter "x\n") "testsFile: |+\n  x\n\n"
  · exact congrArg reportText (if_pos (by decide +kernel))
  · decide +kernel
  · decide +kernel
  · decide +kernel
  · exact parse_reportText _
  · exact parse_reportText _
  · rfl
  · exact fun _ => by decide +kernel

/-- The file of a report whose body contains a fence is read back. -/
theorem report_read_back :
    ReadsBack reportYaml (· == reportTime) (reportFrontmatter "x") "\nfirst\n---\nsecond\n\n" ∧
      RewritesAlike reportYaml (· == reportTime)
        ⟨reportFrontmatter "x", "\nfirst\n---\nsecond\n\n"⟩ := by
  apply (taskFile_roundTrip_iff reportYaml (· == reportTime) lawful_report
    ⟨_, valid_reportFrontmatter "x"⟩ _).mpr
  exact endsInEmptyLine_reportText (by decide)

/-- The name of a file that ends in two line breaks loses one. -/
theorem report_loses_break : reportYaml.Lawful (reportFrontmatter "x\n\n") ∧
      Schemas.TaskFrontmatter (· == reportTime) (reportFrontmatter "x\n\n") =
        some (reportFrontmatter "x\n\n") ∧ parseTaskFile reportYaml (· == reportTime)
          (serializeTask reportYaml ⟨reportFrontmatter "x\n\n", "text"⟩) =
        some ⟨reportFrontmatter "x\n", "text"⟩ ∧
      ¬ReadsBack reportYaml (· == reportTime) (reportFrontmatter "x\n\n") "text" := by
  have hends : endsInEmptyLine (reportYaml.stringify (reportFrontmatter "x\n\n")) = true :=
    endsInEmptyLine_reportText (by decide)
  have hread : parseTaskFile reportYaml (· == reportTime)
      (serializeTask reportYaml ⟨reportFrontmatter "x\n\n", "text"⟩) =
      some ⟨reportFrontmatter "x\n", "text"⟩ := by
    apply (parseTaskFile_serializeTask lawful_keptReport "text").mpr
    rw [reread, if_pos hends]
    exact ⟨valid_reportFrontmatter "x\n", by decide⟩
  refine ⟨lawful_keptReport, valid_reportFrontmatter _, hread, ?_⟩
  rw [readsBack_iff lawful_keptReport (valid_reportFrontmatter _), hends]
  decide

end Aof
