import MessageCatalog.Proofs.Json.CompactText
import MessageCatalog.Proofs.Json.Nesting
import MessageCatalog.Proofs.Merge.Nesting

/-!
Snapshots of registries. What is merged from texts can be written as one text, which is read as a
fragment again and yields the same registry.
-/

namespace MessageCatalog

open Json (Value)

namespace Fragment

/-- The text is JSON, and its value is accepted as this fragment. -/
def ReadFrom (fragment : Fragment) (text : String) : Prop :=
  ∃ value, Value.parse? text = some value ∧ ofJson value = .ok fragment

theorem readFrom_iff {fragment : Fragment} {text : String} :
    fragment.ReadFrom text ↔
      ((Value.parse? text).bind fun value => (ofJson value).toOption) = some fragment := by
  simp only [ReadFrom, Option.bind_eq_some_iff, toOption_eq_some_iff]

instance (fragment : Fragment) (text : String) : Decidable (fragment.ReadFrom text) :=
  decidable_of_iff _ readFrom_iff.symm

theorem fits_toJson_iff (fragment : Fragment) (bound : Nat) :
    fragment.toJson.Fits (bound + 1) ↔ Registry.LocalesFit bound fragment.locales := by
  have shallow : fragment.toJson.depth ≤ bound + 1 ↔
      ∀ entry ∈ fragment.toList, (Tree.nested entry.2).depth ≤ bound := by
    rw [toJson_eq, Value.depth, Nat.add_comm, Nat.add_le_add_iff_right,
      Value.depthOfMembers_le_iff, List.forall_mem_map]
    exact forall₂_congr fun entry _ => by rw [← Tree.depth_toJson]; rfl
  rw [Value.Fits, shallow, distinctKeys_toJson_iff, WellFormed, Registry.LocalesFit,
    and_left_comm, ← forall₂_and]
  rfl

/-- The nesting that is allowed below a locale, since a fragment and its locales are objects. -/
def roomBelow : Nat := Json.maxDepth - 1

theorem ReadFrom.fits {fragment : Fragment} {text : String} (read : fragment.ReadFrom text) :
    Registry.LocalesFit roomBelow fragment.locales := by
  obtain ⟨value, parsed, accepted⟩ := read
  obtain rfl : value = fragment.toJson := (ofJson_eq_ok_iff value fragment).mp accepted
  exact (fits_toJson_iff fragment roomBelow).mp (Json.fits_of_parse? parsed)

theorem readFrom_compact {fragment : Fragment}
    (fits : Registry.LocalesFit roomBelow fragment.locales) :
    fragment.ReadFrom fragment.toJson.compact := by
  obtain ⟨shallow, distinct⟩ := (fits_toJson_iff fragment roomBelow).mpr fits
  have textual : fragment.toJson.Textual :=
    Value.textualMembers_iff.mpr fun member known =>
      (textualByLocale_toJson fragment member known).2
  refine ⟨fragment.toJson, ?_, (ofJson_eq_ok_iff _ fragment).mpr rfl⟩
  rw [Json.parse?_compact textual distinct, if_pos (show _ ≤ Json.maxDepth from shallow)]

end Fragment

namespace Registry

/-- However many texts a registry was merged from, its own text can be read as one fragment, and
that fragment alone is merged into the same registry, in the same order throughout. -/
theorem snapshot_reloads {texts : List String} {fragments : List Fragment}
    (read : List.Forall₂ (fun text fragment => fragment.ReadFrom text) texts fragments) :
    ∃ fragment, fragment.ReadFrom (merge fragments).toJson.compact ∧
      merge [fragment] = merge fragments := by
  have known : ∀ fragment ∈ fragments, LocalesFit Fragment.roomBelow fragment.locales := by
    induction read with
    | nil => exact List.forall_mem_nil _
    | cons first _ ih => exact List.forall_mem_cons.mpr ⟨first.fits, ih⟩
  have fits := localesFit_merge known
  exact ⟨⟨(merge fragments).locales⟩, Fragment.readFrom_compact fits, merge_singleton fits.1⟩

/-- A repeated key, an escape, a hole and a namespace that takes the place of a list. -/
theorem snapshot_reloads_two_texts :
    let first :=
      "\x7b\"en\": \x7b\"a\": \"x\", \"tips\": [null, \"\\u00e9\\n\"], \"a\": \"y\"\x7d\x7d"
    let second :=
      "\x7b\"de\":\x7b\"no\":[null,\"\\t\"]\x7d,\"en\":\x7b\"tips\":\x7b\"b\\\"\":\"z\"\x7d\x7d\x7d"
    let fragments : List Fragment :=
      [⟨⟨[(⟨"en"⟩, ⟨[("a", .leaf "y"), ("tips", .list [none, some "é\n"])]⟩)]⟩⟩,
        ⟨⟨[(⟨"de"⟩, ⟨[("no", .list [none, some "\t"])]⟩),
          (⟨"en"⟩, ⟨[("tips", .nested ⟨[("b\"", .leaf "z")]⟩)]⟩)]⟩⟩]
    List.Forall₂ (fun text fragment => fragment.ReadFrom text) [first, second] fragments ∧
      (merge fragments).toJson.compact =
        "\x7b\"en\":\x7b\"a\":\"y\",\"tips\":\x7b\"b\\\"\":\"z\"\x7d\x7d," ++
          "\"de\":\x7b\"no\":[null,\"\\t\"]\x7d\x7d" ∧
      ∃ fragment, fragment.ReadFrom (merge fragments).toJson.compact ∧
        merge [fragment] = merge fragments := by
  intro first second fragments
  have read : List.Forall₂ (fun text fragment => fragment.ReadFrom text) [first, second]
      fragments := .cons (by decide +kernel) (.cons (by decide +kernel) .nil)
  exact ⟨read, by decide +kernel, snapshot_reloads read⟩

end Registry

end MessageCatalog
