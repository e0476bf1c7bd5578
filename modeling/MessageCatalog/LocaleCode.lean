import MessageCatalog.LanguageTag
import MessageCatalog.Text.Utf8

/-!
Locale codes. A code is opaque: two codes are the same only when their texts are. Some codes
have the form of a language tag, and such a code with subtags has a primary language.
-/

namespace MessageCatalog

structure LocaleCode where
  text : String
  deriving DecidableEq, Repr

namespace LocaleCode

instance : Inhabited LocaleCode := ⟨⟨""⟩⟩

/-- Codes are ordered by the code points of their texts, which is also the order of their
UTF-8 bytes. -/
instance : Ord LocaleCode := ⟨fun left right => compare left.text right.text⟩

def sort (codes : List LocaleCode) : List LocaleCode :=
  codes.mergeSort fun left right => (compare left right).isLE

/-- The language of a code that is a language tag with at least one further subtag, in the
letters of the code: as much of the code as the language in its normal form takes up. -/
def primaryLanguage? (code : LocaleCode) : Option LocaleCode :=
  match LanguageTag.parse? code.text.toList with
  | some tag =>
    if tag.hasSubtags then
      (Text.startOfSize? (Text.byteSize tag.languageText) code.text.toList).map fun language =>
        ⟨String.ofList language⟩
    else none
  | none => none

end LocaleCode

end MessageCatalog
