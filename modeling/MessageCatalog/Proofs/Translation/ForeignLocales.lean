import MessageCatalog.Proofs.Merge.Lookup
import MessageCatalog.Proofs.Translation.FallbackChain

/-!
Fragments of foreign locales. What merging leaves for a locale depends only on what was there for
that locale and on the fragments that name it. So a fragment may be put anywhere among others: the
locales that it does not name keep their messages, and a translator notices it only if it names a
locale of the chain that the translator searches.
-/

namespace MessageCatalog

namespace Registry

variable {registry other : Registry} {code : LocaleCode}

theorem get?_extend_of_absent (registry : Registry) {fragment : Fragment}
    (absent : code ∉ fragment.locales.keys) :
    (registry.extend fragment).get? code = registry.get? code := by
  refine List.foldlRecOn (motive := fun extended : Registry =>
    extended.get? code = registry.get? code) fragment.toList _ rfl ?_
  intro extended same entry member
  have foreign : entry.1 ≠ code := by
    rintro rfl
    exact absent (List.mem_map_of_mem member)
  rw [get?_extendLocale, if_neg foreign, same]

theorem get?_extendLocale_congr (same : registry.get? code = other.get? code)
    (named : LocaleCode) (messages : Namespace) :
    (registry.extendLocale named messages).get? code =
      (other.extendLocale named messages).get? code := by
  rw [get?_extendLocale, get?_extendLocale]
  by_cases hit : named = code
  · rw [if_pos hit, if_pos hit, hit, same]
  · rw [if_neg hit, if_neg hit, same]

theorem get?_extend_congr (same : registry.get? code = other.get? code) (fragment : Fragment) :
    (registry.extend fragment).get? code = (other.extend fragment).get? code := by
  refine List.foldl_rel (r := fun registry other : Registry =>
    registry.get? code = other.get? code) same ?_
  intro entry _ registry other same
  exact get?_extendLocale_congr same entry.1 entry.2

theorem get?_foldl_extend_congr (same : registry.get? code = other.get? code)
    (fragments : List Fragment) :
    (fragments.foldl extend registry).get? code = (fragments.foldl extend other).get? code := by
  induction fragments generalizing registry other with
  | nil => exact same
  | cons fragment rest ih => exact ih (get?_extend_congr same fragment)

theorem get?_merge_of_absent {inserted : Fragment} (absent : code ∉ inserted.locales.keys)
    (earlier later : List Fragment) :
    (merge (earlier ++ inserted :: later)).get? code = (merge (earlier ++ later)).get? code := by
  rw [merge, merge, List.foldl_append, List.foldl_append, List.foldl_cons]
  exact get?_foldl_extend_congr (get?_extend_of_absent _ absent) later

end Registry

namespace Translator

variable {registry other : Registry} {locale : LocaleCode} {fallback : Option LocaleCode}

/-- Of a registry a translator sees only the locales of its chain. -/
theorem lookup_congr_of_chain
    (same : ∀ code ∈ chain locale fallback, registry.get? code = other.get? code) (key : String) :
    (⟨registry, locale, fallback⟩ : Translator).lookup key =
      (⟨other, locale, fallback⟩ : Translator).lookup key := by
  have answers : (chain locale fallback).map (registry.resolve · key) =
      (chain locale fallback).map (other.resolve · key) := by
    refine List.map_congr_left fun code among => ?_
    rw [Registry.resolve, Registry.resolve, same code among]
  have hits := congrArg (List.findSome? id) answers
  rw [List.findSome?_map, List.findSome?_map] at hits
  rw [lookup_eq_findSome?_chain, lookup_eq_findSome?_chain]
  exact hits

theorem renderWith_congr {first second : Translator} {key : String}
    (locales : first.locale = second.locale) (answers : first.lookup key = second.lookup key) :
    first.renderWith key = second.renderWith key := by
  funext render
  rw [renderWith, renderWith, answers, locales]

theorem not_mem_chain_iff {code : LocaleCode} :
    code ∉ chain locale fallback ↔
      code ≠ locale ∧ ∀ base ∈ fallback, code ≠ base ∧ locale.primaryLanguage? ≠ some code := by
  cases fallback with
  | none => simp [chain]
  | some fallback => simp [chain, and_comm]

end Translator

namespace Registry

/-- A fragment that is put anywhere among others leaves the locales that it does not name as they
are, their names in the same order. If these are the active locale and, where there is a fallback,
the fallback and the primary language, then a translator finds, fills and reports the same. -/
theorem translations_ignore_foreign_locales (earlier later : List Fragment) (inserted : Fragment) :
    let without := merge (earlier ++ later)
    let extended := merge (earlier ++ inserted :: later)
    (∀ code ∉ inserted.locales.keys, extended.get? code = without.get? code) ∧
      ∀ locale fallback,
        (∀ code ∈ inserted.locales.keys, code ≠ locale ∧
          ∀ base ∈ fallback, code ≠ base ∧ locale.primaryLanguage? ≠ some code) →
        ∀ key arguments quantity,
          let first : Translator := ⟨extended, locale, fallback⟩
          let second : Translator := ⟨without, locale, fallback⟩
          first.lookup key = second.lookup key ∧
            first.translate key arguments = second.translate key arguments ∧
            first.plural key quantity = second.plural key quantity := by
  intro without extended
  have kept : ∀ code ∉ inserted.locales.keys, extended.get? code = without.get? code :=
    fun code absent => get?_merge_of_absent absent earlier later
  refine ⟨kept, ?_⟩
  intro locale fallback foreign key arguments quantity first second
  have searched : ∀ code ∈ Translator.chain locale fallback,
      extended.get? code = without.get? code := by
    intro code among
    refine kept code fun named => ?_
    exact Translator.not_mem_chain_iff.mpr (foreign code named) among
  have answers : first.lookup key = second.lookup key :=
    Translator.lookup_congr_of_chain searched key
  have rendered : first.renderWith key = second.renderWith key :=
    Translator.renderWith_congr rfl answers
  exact ⟨answers, congrFun rendered _, congrFun rendered _⟩

/-- The fragment between the others names the region, but in other letters, and another region. -/
theorem translations_ignore_foreign_locales_of_like_codes :
    let portuguese : Namespace := ⟨[("open", .leaf "Abrir \x7b0\x7d"), ("quit", .leaf "Sair")]⟩
    let foreign : Namespace := ⟨[("open", .nested ⟨[]⟩), ("quit", .list [])]⟩
    let earlier : List Fragment := [⟨⟨[(⟨"pt"⟩, portuguese)]⟩⟩]
    let inserted : Fragment := ⟨⟨[(⟨"PT"⟩, foreign), (⟨"pt-br"⟩, foreign), (⟨"pt-PT"⟩, foreign)]⟩⟩
    let later : List Fragment := [⟨⟨[(⟨"pt"⟩, ⟨[("quit", .leaf "Terminar")]⟩), (⟨"en"⟩, ⟨[]⟩)]⟩⟩]
    let without := merge (earlier ++ later)
    let extended := merge (earlier ++ inserted :: later)
    let first : Translator := ⟨extended, ⟨"pt-BR"⟩, some ⟨"en"⟩⟩
    let second : Translator := ⟨without, ⟨"pt-BR"⟩, some ⟨"en"⟩⟩
    (∀ code ∈ inserted.locales.keys, code ≠ ⟨"pt-BR"⟩ ∧
        ∀ base ∈ some (⟨"en"⟩ : LocaleCode), code ≠ base ∧
          (⟨"pt-BR"⟩ : LocaleCode).primaryLanguage? ≠ some code) ∧
      extended.codes ≠ without.codes ∧ extended.get? ⟨"pt"⟩ = without.get? ⟨"pt"⟩ ∧
      first.lookup "open" = some "Abrir \x7b0\x7d" ∧
      first.translate "open" (some (.positional ["x"])) =
        second.translate "open" (some (.positional ["x"])) := by
  intro portuguese foreign earlier inserted later without extended first second
  have distant : ∀ code ∈ inserted.locales.keys, code ≠ ⟨"pt-BR"⟩ ∧
      ∀ base ∈ some (⟨"en"⟩ : LocaleCode), code ≠ base ∧
        (⟨"pt-BR"⟩ : LocaleCode).primaryLanguage? ≠ some code := by decide
  obtain ⟨kept, translations⟩ := translations_ignore_foreign_locales earlier later inserted
  obtain ⟨_, translated, _⟩ := translations ⟨"pt-BR"⟩ (some ⟨"en"⟩) distant "open"
    (some (.positional ["x"])) 0
  exact ⟨distant, by decide, kept ⟨"pt"⟩ (by decide), by decide, translated⟩

end Registry

end MessageCatalog
