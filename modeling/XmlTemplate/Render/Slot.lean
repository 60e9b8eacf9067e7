import XmlTemplate.Table
import XmlTemplate.Text.Basic

/-!
# Slots

While a page is rendered, a slot writes its content between two marks that bear its name. At the
end the marks are resolved slot by slot, in the order of the slots: the first pair of marks is
replaced together with what is between them by the content that was plugged into the slot; the
marks of a slot without a plug are taken away.
-/

namespace XmlTemplate.Slot

/-- Mark in front of the content of a slot. -/
def opening (name : String) : String := "/==SLOT==" ++ name ++ "==BEGIN/"

/-- Mark behind the content of a slot. -/
def closing (name : String) : String := "/==SLOT==" ++ name ++ "==END/"

/-- Take all occurrences of a mark out of a text, from left to right. -/
def erase (mark text : List Char) : List Char :=
  match text with
  | [] => []
  | c :: rest =>
    match Text.after? mark (c :: rest) with
    | some after =>
      if after.length < (c :: rest).length then erase mark after else c :: erase mark rest
    | none => c :: erase mark rest
termination_by text.length
decreasing_by all_goals simp_all

/-- Replace the first opening mark and all up to the first closing mark that comes from there on. -/
def fill (name : String) (content text : List Char) : List Char :=
  match Text.cut? (opening name).toList text with
  | none => text
  | some (before, rest) =>
    match Text.cut? (closing name).toList ((opening name).toList ++ rest) with
    | none => text
    | some (_, after) => before ++ content ++ after

/-- Resolve one occurrence of a slot. -/
def resolve (plugs : Table String) (text : List Char) (name : String) : List Char :=
  match plugs.get? name with
  | some content => fill name content.toList text
  | none => erase (closing name).toList (erase (opening name).toList text)

/-- Resolve the slots of a page, one after the other. -/
def splice (slots : List String) (plugs : Table String) (page : String) : String :=
  String.ofList (slots.foldl (resolve plugs) page.toList)

end XmlTemplate.Slot
