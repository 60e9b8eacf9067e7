import XmlTemplate.Fault

/-!
# Faults up to their places

Two faults are alike if they differ in the lines at which they show and in nothing else.
-/

namespace XmlTemplate

namespace Fault

/-- The fault without its place. -/
def withoutPlace : Fault → Fault
  | syntaxError _ expression error => syntaxError ⟨"", 0⟩ expression error
  | conflict _ tag pair => conflict ⟨"", 0⟩ tag pair
  | missingAttribute _ tag key => missingAttribute ⟨"", 0⟩ tag key
  | unknownFunction _ name => unknownFunction ⟨"", 0⟩ name
  | functionCall _ name message => functionCall ⟨"", 0⟩ name message
  | unknownMacro _ name => unknownMacro ⟨"", 0⟩ name
  | noText _ => noText ⟨"", 0⟩
  | unknownDictionary _ name => unknownDictionary ⟨"", 0⟩ name
  | missingEntry _ key => missingEntry ⟨"", 0⟩ key
  | emptyTranslation _ key => emptyTranslation ⟨"", 0⟩ key
  | unknownFeed _ feedClass => unknownFeed ⟨"", 0⟩ feedClass
  | feed _ feedClass message => feed ⟨"", 0⟩ feedClass message
  | unknownFilter _ name => unknownFilter ⟨"", 0⟩ name
  | missingSource _ path => missingSource none path
  | markup _ problem => markup ⟨"", 0⟩ problem
  | fault => fault

/-- The faults are the same up to their places. -/
def Like (f f' : Fault) : Prop := f.withoutPlace = f'.withoutPlace

theorem Like.refl (f : Fault) : f.Like f := rfl

/-- Wherever they show, the faults are alike. -/
def IsUniform (f : Location → Fault) : Prop := ∀ l l', (f l).Like (f l')

theorem like_locate (f : Fault) (l l' : Location) : (f.locate l).Like (f.locate l') := by
  cases f with
  | missingSource location path => cases location <;> rfl
  | _ => rfl

end Fault

namespace Stop

/-- The reasons are the same up to the places of faults. -/
def Like : Stop → Stop → Prop
  | fault f, fault f' => f.Like f'
  | overflow, overflow => True
  | depth, depth => True
  | _, _ => False

theorem Like.refl (stop : Stop) : stop.Like stop := by
  cases stop with
  | fault f => exact Fault.Like.refl f
  | overflow | depth => trivial

end Stop

end XmlTemplate
