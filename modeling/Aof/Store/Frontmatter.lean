import Aof.Schemas.TaskFrontmatter

/-!
# Texts with frontmatter

A YAML block between two fences, and a body.  The store's parser and the migrations split such a
text in the same way (`store/task-parser.ts`, `projects/migration.ts`,
`packaging/migrations/008-strip-bogus-project-data.ts`).
-/

namespace Aof

/-- The YAML library: the value of a document, unless it throws, and the text of a value. -/
structure Yaml where
  parse : String → Option JsValue
  stringify : JsValue → String

def FENCE : List Char := "---".toList

/-- The parts of a text with frontmatter, as lines. -/
structure FencedText where
  yamlBlock : List (List Char)
  body : List (List Char)

/-- The first line is trimmed before it is compared, the closing fence is not. -/
def splitFrontmatter (content : String) : Option FencedText :=
  match content.toList.splitOn '\n' with
  | first :: rest =>
      if JsString.trim first = FENCE ∧ FENCE ∈ rest then
        let yamlBlock := rest.takeWhile (· ≠ FENCE)
        some ⟨yamlBlock, rest.drop (yamlBlock.length + 1)⟩
      else none
  | [] => none

def joinLines (lines : List (List Char)) : String := String.ofList (['\n'].intercalate lines)

theorem joinLines_splitOn (text : List Char) :
    joinLines (text.splitOn '\n') = String.ofList text := by
  rw [joinLines, List.intercalate_splitOn]

variable {yamlBlock : List (List Char)} {content : String}

theorem takeWhile_fence (hblock : FENCE ∉ yamlBlock) (body : List (List Char)) :
    (yamlBlock ++ FENCE :: body).takeWhile (· ≠ FENCE) = yamlBlock := by
  rw [List.takeWhile_append_of_pos, List.takeWhile_cons_of_neg, List.append_nil]
  · exact fun h => of_decide_eq_true h rfl
  · exact fun line hline => decide_eq_true fun h => hblock (h ▸ hline)

theorem drop_fence (yamlBlock body : List (List Char)) :
    (yamlBlock ++ FENCE :: body).drop (yamlBlock.length + 1) = body := by
  rw [List.drop_append, List.drop_of_length_le (Nat.le_succ _), List.nil_append,
    Nat.add_sub_cancel_left]
  rfl

theorem splitFrontmatter_of_lines {body : List (List Char)}
    (hlines : content.toList.splitOn '\n' = FENCE :: (yamlBlock ++ FENCE :: body))
    (hblock : FENCE ∉ yamlBlock) : splitFrontmatter content = some ⟨yamlBlock, body⟩ := by
  have hfence : JsString.trim FENCE = FENCE ∧ FENCE ∈ yamlBlock ++ FENCE :: body :=
    ⟨by decide, List.mem_append_right _ List.mem_cons_self⟩
  rw [splitFrontmatter, hlines]
  simp only [hfence, and_self, if_true, takeWhile_fence hblock, drop_fence]

theorem splitFrontmatter_eq_some {text : FencedText}
    (hsplit : splitFrontmatter content = some text) :
    ∃ first, content.toList.splitOn '\n' = first :: (text.yamlBlock ++ FENCE :: text.body) ∧
      FENCE ∉ text.yamlBlock := by
  rw [splitFrontmatter] at hsplit
  split at hsplit
  · rename_i first rest hlines
    rw [Option.ite_none_right_eq_some] at hsplit
    obtain ⟨⟨-, hfence⟩, hsplit⟩ := hsplit
    obtain ⟨yamlBlock, body, rfl, hblock⟩ := List.eq_append_cons_of_mem hfence
    simp only [takeWhile_fence hblock, drop_fence] at hsplit
    obtain rfl := Option.some.inj hsplit
    exact ⟨first, hlines, hblock⟩
  · cases hsplit

mutual

def dropLastBreak : JsValue → JsValue
  | .str text => .str (String.ofList text.toList.dropLast)
  | .arr items => .arr (dropLastBreakItems items)
  | .obj properties => .obj (dropLastBreakProperties properties)
  | value => value

def dropLastBreakItems : List JsValue → List JsValue
  | [] => []
  | [item] => [dropLastBreak item]
  | item :: next :: items => item :: dropLastBreakItems (next :: items)

def dropLastBreakProperties : JsObject → JsObject
  | [] => []
  | [(key, value)] => [(key, dropLastBreak value)]
  | entry :: next :: entries => entry :: dropLastBreakProperties (next :: entries)

end

mutual

def endsInBreak : JsValue → Bool
  | .str text => text.toList.getLast? = some '\n'
  | .arr items => endsInBreakItems items
  | .obj properties => endsInBreakProperties properties
  | _ => false

def endsInBreakItems : List JsValue → Bool
  | [] => false
  | [item] => endsInBreak item
  | _ :: next :: items => endsInBreakItems (next :: items)

def endsInBreakProperties : JsObject → Bool
  | [] => false
  | [(_, value)] => endsInBreak value
  | _ :: next :: entries => endsInBreakProperties (next :: entries)

end

def chopped (text : String) : String := String.ofList text.toList.dropLast

def endsInEmptyLine (text : String) : Bool :=
  text.toList.dropLast.getLast?.all (· = '\n')

/-- What the library promises about a value: it reads the text of the value back, a text ends in a
line break, no line of it is a fence, and without its last line break it is read alike unless it
ends in an empty line.  Such a text ends with a string that keeps its line breaks, and that string
loses one. -/
structure Yaml.Lawful (yaml : Yaml) (value : JsValue) : Prop where
  parse : yaml.parse (yaml.stringify value) = some value
  terminated : (yaml.stringify value).toList.getLast? = some '\n'
  fenceless : FENCE ∉ (yaml.stringify value).toList.splitOn '\n'
  parse_chopped : yaml.parse (chopped (yaml.stringify value)) =
    (yaml.parse (yaml.stringify value)).map
      (if endsInEmptyLine (yaml.stringify value) then dropLastBreak else id)
  endsInBreak : endsInEmptyLine (yaml.stringify value) → endsInBreak value = true

theorem endsInBreakItems_last {items : List JsValue} (hends : endsInBreakItems items = true) :
    ∃ before item, items = before ++ [item] ∧ endsInBreak item = true ∧
      dropLastBreakItems items = before ++ [dropLastBreak item] := by
  induction items with
  | nil => cases hends
  | cons item items ih =>
      cases items with
      | nil => exact ⟨[], item, rfl, hends, rfl⟩
      | cons next items =>
          obtain ⟨before, last, hitems, hlast, hdrop⟩ := ih hends
          exact ⟨item :: before, last, congrArg _ hitems, hlast, congrArg _ hdrop⟩

theorem endsInBreakProperties_last {properties : JsObject}
    (hends : endsInBreakProperties properties = true) :
    ∃ before key value, properties = before ++ [(key, value)] ∧ endsInBreak value = true ∧
      dropLastBreakProperties properties = before ++ [(key, dropLastBreak value)] := by
  induction properties with
  | nil => cases hends
  | cons entry properties ih =>
      cases properties with
      | nil => exact ⟨[], entry.1, entry.2, rfl, hends, rfl⟩
      | cons next properties =>
          obtain ⟨before, key, value, hproperties, hvalue, hdrop⟩ := ih hends
          exact ⟨entry :: before, key, value, congrArg _ hproperties, hvalue, congrArg _ hdrop⟩

theorem edited_dropLastBreak (value : JsValue) (hends : endsInBreak value = true) :
    JsValue.Edited value (dropLastBreak value) := by
  match value, hends with
  | .str text, hends =>
      apply JsValue.Edited.str
      intro heq
      have hlength := congrArg (fun text => text.toList.length) heq
      simp only [String.toList_ofList, List.length_dropLast] at hlength
      have hlast : text.toList.getLast? = some '\n' := of_decide_eq_true hends
      cases htext : text.toList with
      | nil =>
          rw [htext] at hlast
          cases hlast
      | cons c cs =>
          rw [htext, List.length_cons] at hlength
          omega
  | .arr items, hends =>
      obtain ⟨before, item, rfl, hitem, hdrop⟩ := endsInBreakItems_last hends
      have hlt : item.depth < (JsValue.arr (before ++ [item])).depth :=
        JsValue.depth_lt_of_mem (List.mem_append_right _ List.mem_cons_self)
      rw [dropLastBreak, hdrop]
      exact .item before [] (edited_dropLastBreak item hitem)
  | .obj properties, hends =>
      obtain ⟨before, key, last, rfl, hlast, hdrop⟩ := endsInBreakProperties_last hends
      have hlt : last.depth < (JsValue.obj (before ++ [(key, last)])).depth :=
        JsValue.depth_lt_of_mem_properties (List.mem_append_right _ List.mem_cons_self)
      rw [dropLastBreak, hdrop]
      exact .property before [] key (edited_dropLastBreak last hlast)
termination_by value.depth

end Aof

/-!
## Task files

The parser and the serializer of `store/task-parser.ts`.
-/

namespace Aof

/-- `Task`, without the path that is set when it is loaded. -/
structure ParsedTask where
  frontmatter : JsValue
  body : String

/-- `String.prototype.trim` -/
def trimText (text : String) : String := String.ofList (JsString.trim text.toList)

def parseTaskFile (yaml : Yaml) (isDatetime : String → Bool) (raw : String) :
    Option ParsedTask := do
  let text ← splitFrontmatter raw
  let rawFrontmatter ← yaml.parse (joinLines text.yamlBlock)
  let frontmatter ← Schemas.TaskFrontmatter isDatetime rawFrontmatter
  pure ⟨frontmatter, trimText (joinLines text.body)⟩

def serializeTask (yaml : Yaml) (task : ParsedTask) : String :=
  s!"---\n{yaml.stringify task.frontmatter}---\n\n{task.body}\n"

variable {yaml : Yaml} {isDatetime : String → Bool}

theorem parseTaskFile_eq_some_iff {raw : String} {task : ParsedTask} :
    parseTaskFile yaml isDatetime raw = some task ↔ ∃ text rawFrontmatter,
      splitFrontmatter raw = some text ∧
      yaml.parse (joinLines text.yamlBlock) = some rawFrontmatter ∧
      Schemas.TaskFrontmatter isDatetime rawFrontmatter = some task.frontmatter ∧
      task.body = trimText (joinLines text.body) := by
  simp only [parseTaskFile, Option.bind_eq_bind, Option.bind_eq_some_iff]
  constructor
  · rintro ⟨text, hsplit, rawFrontmatter, hparse, frontmatter, hschema, htask⟩
    obtain rfl := Option.some.inj htask
    exact ⟨text, rawFrontmatter, hsplit, hparse, hschema, rfl⟩
  · rintro ⟨text, rawFrontmatter, hsplit, hparse, hschema, hbody⟩
    exact ⟨text, hsplit, rawFrontmatter, hparse, task.frontmatter, hschema,
      congrArg (fun body => some (ParsedTask.mk task.frontmatter body)) hbody.symm⟩

end Aof
