import MessageCatalog.Translator

/-!
The fallback chain. A translator passes over a locale that it would search twice, and without a
fallback it searches only the active locale. None of this shows in its answers: they are those of
one plain search, and a translation is made from the message to which that search comes first.
-/

namespace MessageCatalog.Translator

/-- The locales that may answer for an active locale, in order. A locale may come twice. -/
def chain (locale : LocaleCode) : Option LocaleCode → List LocaleCode
  | none => [locale]
  | some fallback => [locale] ++ locale.primaryLanguage?.toList ++ [fallback]

section Searching

variable (translator : Translator) (fallback : LocaleCode) (key : String)

/-- A primary language that is the fallback may be searched: the fallback comes right after it. -/
theorem primaryMessage?_or_resolve :
    (translator.primaryMessage? fallback key).or (translator.registry.resolve fallback key) =
      (translator.locale.primaryLanguage?.bind (translator.registry.resolve · key)).or
        (translator.registry.resolve fallback key) := by
  unfold primaryMessage?
  cases translator.locale.primaryLanguage? with
  | none => rfl
  | some primary =>
      by_cases same : primary = fallback
      · simp [same]
      · simp [same]

/-- A fallback that is the active locale may be searched: it has no more to say than before. -/
theorem resolve_or_unless_active (between : Option String) :
    (translator.registry.resolve translator.locale key).or
        (between.or (if fallback = translator.locale then none
          else translator.registry.resolve fallback key)) =
      (translator.registry.resolve translator.locale key).or
        (between.or (translator.registry.resolve fallback key)) := by
  by_cases same : fallback = translator.locale
  · rw [if_pos same, same]
    cases translator.registry.resolve translator.locale key <;> simp
  · rw [if_neg same]

theorem lookup_eq_or :
    translator.lookup key =
      (translator.registry.resolve translator.locale key).or
        (translator.fallback.bind fun fallback =>
          (translator.primaryMessage? fallback key).or
            (if fallback = translator.locale then none
              else translator.registry.resolve fallback key)) := by
  unfold lookup
  cases translator.registry.resolve translator.locale key with
  | some message => rfl
  | none =>
      cases translator.fallback with
      | none => rfl
      | some fallback =>
          rw [Option.none_or, Option.bind_some]
          dsimp only
          cases translator.primaryMessage? fallback key <;> rfl

theorem findSome?_chain_some (find : LocaleCode → Option String) (locale : LocaleCode) :
    (chain locale (some fallback)).findSome? find =
      (find locale).or ((locale.primaryLanguage?.bind find).or (find fallback)) := by
  rw [chain, List.findSome?_append, List.findSome?_append, List.findSome?_singleton,
    List.findSome?_singleton, Option.or_assoc]
  cases locale.primaryLanguage? <;> simp

theorem lookup_eq_findSome?_chain :
    translator.lookup key =
      (chain translator.locale translator.fallback).findSome? fun code =>
        translator.registry.resolve code key := by
  rw [lookup_eq_or]
  cases translator.fallback with
  | none => simp [chain]
  | some fallback =>
      rw [Option.bind_some, resolve_or_unless_active, primaryMessage?_or_resolve,
        findSome?_chain_some]

end Searching

section Rendering

variable {translator : Translator} {key : String}

theorem renderWith_of_lookup {message : String} (found : translator.lookup key = some message)
    (render : String → String) :
    translator.renderWith key render = ⟨render message, []⟩ := by
  rw [renderWith, found]

theorem renderWith_of_missing (missing : translator.lookup key = none)
    (render : String → String) :
    translator.renderWith key render = ⟨key, [.missing key translator.locale]⟩ := by
  rw [renderWith, missing]

end Rendering

/-- Looking a key up is one search through the plain chain, whichever locales are passed over on the
way. The message that is found is what gets filled in or cut into variants, and nothing is reported.
If there is none the key is the result as it stands, with one warning about it. Without a fallback
the variants are those of the active locale's own messages. -/
theorem searches_plain_chain (registry : Registry) (locale : LocaleCode)
    (fallback : Option LocaleCode) (key : String) :
    let translator : Translator := ⟨registry, locale, fallback⟩
    let found := (chain locale fallback).findSome? fun code => registry.resolve code key
    let warning : Notice := .missing key locale
    translator.lookup key = found ∧
      (∀ message, found = some message → ∀ arguments quantity,
        translator.translate key arguments = ⟨interpolate message arguments, []⟩ ∧
        translator.plural key quantity = ⟨Plural.select message quantity, []⟩) ∧
      (found = none → ∀ arguments quantity,
        translator.translate key arguments = ⟨key, [warning]⟩ ∧
        translator.plural key quantity = ⟨key, [warning]⟩) ∧
      (warning.level = .warn ∧ warning.message =
        "Translation for '" ++ key ++ "' not found in locale '" ++ locale.text ++ "'") ∧
      (fallback = none → ∀ messages, registry.get? locale = some messages → ∀ quantity,
        (translator.plural key quantity).value = Plural.resolve messages key quantity) := by
  intro translator found warning
  have searched : translator.lookup key = found := lookup_eq_findSome?_chain translator key
  refine ⟨searched, ?answered, ?missing, ⟨rfl, rfl⟩, ?alone⟩
  case answered =>
    intro message hit arguments quantity
    have answer := searched.trans hit
    exact ⟨renderWith_of_lookup answer _, renderWith_of_lookup answer _⟩
  case missing =>
    intro nothing arguments quantity
    have answer := searched.trans nothing
    exact ⟨renderWith_of_missing answer _, renderWith_of_missing answer _⟩
  case alone =>
    rintro rfl messages known quantity
    have answer : translator.lookup key = messages.resolve key := by
      rw [searched]
      simp [found, chain, Registry.resolve, known]
    rw [Plural.resolve, plural]
    cases resolved : messages.resolve key with
    | some message => rw [renderWith_of_lookup (answer.trans resolved)]
    | none => rw [renderWith_of_missing (answer.trans resolved)]

/-- The primary language is the fallback, then it is neither the fallback nor the active locale and
answers for both, then the fallback is the active locale, then there is none. -/
theorem searches_plain_chain_past_repetitions :
    let portuguese : Namespace := ⟨[("files", .leaf "no file | \x7b0\x7d file | \x7b0\x7d files")]⟩
    let registry : Registry := ⟨⟨[(⟨"en"⟩, ⟨[]⟩), (⟨"pt"⟩, portuguese)]⟩⟩
    let regional : Translator := ⟨registry, ⟨"pt-BR"⟩, some ⟨"pt"⟩⟩
    let distant : Translator := ⟨registry, ⟨"pt-BR"⟩, some ⟨"en"⟩⟩
    let circular : Translator := ⟨registry, ⟨"pt-BR"⟩, some ⟨"pt-BR"⟩⟩
    let alone : Translator := ⟨registry, ⟨"pt"⟩, none⟩
    regional.plural "files" 7.0 = ⟨"\x7b0\x7d files", []⟩ ∧
      distant.locale.primaryLanguage? = some ⟨"pt"⟩ ∧
      registry.resolve ⟨"pt-BR"⟩ "files" = none ∧ registry.resolve ⟨"en"⟩ "files" = none ∧
      distant.plural "files" 1.0 = ⟨"\x7b0\x7d file", []⟩ ∧
      circular.translate "menu.\x7b0\x7d | " (some (.positional ["2"])) =
        ⟨"menu.\x7b0\x7d | ", [.missing "menu.\x7b0\x7d | " ⟨"pt-BR"⟩]⟩ ∧
      (alone.plural "files" 1.0).value = Plural.resolve portuguese "files" 1.0 := by
  intro portuguese registry regional distant circular alone
  obtain ⟨_, answered, _⟩ := searches_plain_chain registry ⟨"pt-BR"⟩ (some ⟨"pt"⟩) "files"
  obtain ⟨_, answeredBetween, _⟩ := searches_plain_chain registry ⟨"pt-BR"⟩ (some ⟨"en"⟩) "files"
  obtain ⟨_, _, missing, _⟩ :=
    searches_plain_chain registry ⟨"pt-BR"⟩ (some ⟨"pt-BR"⟩) "menu.\x7b0\x7d | "
  obtain ⟨_, _, _, _, own⟩ := searches_plain_chain registry ⟨"pt"⟩ none "files"
  have many : Plural.select "no file | \x7b0\x7d file | \x7b0\x7d files" 7.0 =
      "\x7b0\x7d files" := by decide +kernel
  have one : Plural.select "no file | \x7b0\x7d file | \x7b0\x7d files" 1.0 =
      "\x7b0\x7d file" := by decide +kernel
  exact ⟨many ▸ (answered _ (by decide) none 7.0).2, by decide, by decide, by decide,
    one ▸ (answeredBetween _ (by decide) none 1.0).2,
    (missing (by decide) (some (.positional ["2"])) 0).1, own rfl portuguese rfl 1.0⟩

end MessageCatalog.Translator
