import Mathlib.Data.List.Sort
import MessageCatalog.Proofs.Files.Listing
import MessageCatalog.Proofs.Files.Walk
import MessageCatalog.Proofs.Json.Nesting
import MessageCatalog.Proofs.Merge.LastDefiner
import MessageCatalog.Proofs.Tree.Image

/-!
Loading the locales directory. What is loaded depends on what the directory holds, and not on the
order in which it or any directory below it is listed: locales come in the order of their bytes,
and the files of a locale in the order of theirs. The first of them that cannot be read as
messages decides how loading fails.
-/

namespace MessageCatalog

open Files (Entry Name Path ProperName)

/-- A file with messages of a locale. -/
structure Source where
  locale : LocaleCode
  file : Name
  content : Bytes

namespace Source

def path (localesPath : Path) (source : Source) : Path :=
  (localesPath.join (.ofString source.locale.text)).join ⟨source.file⟩

/-- The messages in the file, or why there are none. -/
def read (localesPath : Path) (source : Source) : Except ConfigurationFault Namespace :=
  match Text.ofUtf8? source.content with
  | none => .error (.unreadable .invalidData)
  | some text =>
    match Json.Value.parse? text with
    | none => .error (.invalidJson (source.path localesPath))
    | some value =>
      match Namespace.ofJson value with
      | .error fault => .error (.invalidTree (source.path localesPath) fault)
      | .ok messages => .ok messages

/-- The source is a message file of one of the directories among these entries. -/
def ListedIn (entries : List (Name × Entry)) (source : Source) : Prop :=
  ∃ below, (Text.toUtf8 source.locale.text, .directory below) ∈ entries ∧
    (source.file, .file source.content) ∈ below ∧ IsMessageFile source.file

def Before (first second : Source) : Prop :=
  Text.toUtf8 first.locale.text < Text.toUtf8 second.locale.text ∨
    first.locale = second.locale ∧ first.file < second.file

end Source

/-- A locales directory, with what its listing gives. Directory names are UTF-8, and no path to a
locale or to a message file is too long to be opened. -/
structure LocalesDirectory (files : Entry) (localesPath : Path) (entries : List (Name × Entry)) :
    Prop where
  wellFormed : files.WellFormed
  listed : files.readDirectory localesPath = .ok entries
  decodable : ∀ name below, (name, .directory below) ∈ entries → ∃ text, name = Text.toUtf8 text
  short : ∀ name below, (name, .directory below) ∈ entries →
    (localesPath.join ⟨name⟩).bytes.length ≤ Entry.pathLimit ∧
    ∀ file content, (file, .file content) ∈ below → IsMessageFile file →
      ((localesPath.join ⟨name⟩).join ⟨file⟩).bytes.length ≤ Entry.pathLimit

section Attempts

variable {α β : Type}

theorem Attempt.value_andThen (first : Attempt α) (next : α → Attempt β) :
    (Attempt.andThen first next).value = first.value >>= fun value => (next value).value := by
  unfold Attempt.andThen
  cases first.value <;> rfl

theorem Attempt.value_each (work : α → Attempt β) (items : List α) :
    (Attempt.each work items).value = items.mapM fun item => (work item).value := by
  induction items with
  | nil => rfl
  | cons item rest ih =>
      simp only [Attempt.each, Attempt.value_andThen, ih, List.mapM_cons]
      rfl

end Attempts

/-- The fragment that the source contributes, or why it contributes none. -/
def Source.load (localesPath : Path) (source : Source) : Except ConfigurationFault Fragment :=
  (source.read localesPath).map fun messages => Fragment.empty.insert source.locale messages

namespace LocaleFiles

variable {files : Entry} {localesPath : Path} {entries below : List (Name × Entry)}
  {code : LocaleCode}

/-! The sources in the order in which they are read. -/

def contentOf (name : Name) (below : List (Name × Entry)) : Bytes :=
  match Entry.findIn name below with
  | some (.file content) => content
  | _ => []

def sourcesOf (code : LocaleCode) (below : List (Name × Entry)) : List Source :=
  (messageFilesAmong below).map fun file => ⟨code, file, contentOf file below⟩

def belowOf (code : LocaleCode) (entries : List (Name × Entry)) : List (Name × Entry) :=
  match Entry.findIn (Text.toUtf8 code.text) entries with
  | some (.directory below) => below
  | _ => []

def sourcesAmong (entries : List (Name × Entry)) (codes : List LocaleCode) : List Source :=
  codes.flatMap fun code => sourcesOf code (belowOf code entries)

theorem contentOf_eq (distinct : (below.map Prod.fst).Nodup) {name : Name} {content : Bytes}
    (member : (name, .file content) ∈ below) : contentOf name below = content := by
  rw [contentOf, Entry.findIn_of_mem distinct member]

theorem belowOf_eq (distinct : (entries.map Prod.fst).Nodup)
    (member : (Text.toUtf8 code.text, .directory below) ∈ entries) :
    belowOf code entries = below := by
  rw [belowOf, Entry.findIn_of_mem distinct member]

theorem mem_sourcesOf_iff (distinct : (below.map Prod.fst).Nodup) {source : Source} :
    source ∈ sourcesOf code below ↔ source.locale = code ∧ IsMessageFile source.file ∧
      (source.file, .file source.content) ∈ below := by
  simp only [sourcesOf, List.mem_map, mem_messageFilesAmong_iff]
  constructor
  · rintro ⟨file, ⟨ending, content, member⟩, rfl⟩
    refine ⟨rfl, ending, ?_⟩
    rwa [contentOf_eq distinct member]
  · obtain ⟨locale, file, content⟩ := source
    rintro ⟨rfl, ending, member⟩
    exact ⟨file, ⟨ending, content, member⟩, by rw [contentOf_eq distinct member]⟩

theorem locale_of_mem {source : Source} (member : source ∈ sourcesOf code below) :
    source.locale = code := by
  obtain ⟨file, _, rfl⟩ := List.mem_map.mp member
  rfl

theorem pairwise_sourcesOf (distinct : (below.map Prod.fst).Nodup) :
    (sourcesOf code below).Pairwise Source.Before := by
  refine List.pairwise_map.mpr ((pairwise_messageFilesAmong distinct).imp ?_)
  exact fun earlier => Or.inr ⟨rfl, earlier⟩

theorem value_loadFile (files : Entry) (code : LocaleCode) (file : Path) :
    (loadFile files code file).value =
      (readMessages files file).map fun messages => Fragment.empty.insert code messages := by
  rw [loadFile]
  cases readMessages files file <;> rfl

end LocaleFiles

namespace LocalesDirectory

open LocaleFiles

variable {files : Entry} {localesPath : Path} {entries below : List (Name × Entry)}
  {code : LocaleCode}

theorem entries_wellFormed (directory : LocalesDirectory files localesPath entries) :
    (Entry.directory entries).WellFormed := by
  have opened := Entry.readDirectory_eq_ok_iff.mp directory.listed
  obtain ⟨place, _, found⟩ := Entry.open?_eq_ok_iff.mp opened
  exact directory.wellFormed.at? found

theorem distinct (directory : LocalesDirectory files localesPath entries) :
    (entries.map Prod.fst).Nodup := by
  cases directory.entries_wellFormed with
  | directory distinct => exact distinct

theorem below_wellFormed (directory : LocalesDirectory files localesPath entries) {name : Name}
    (member : (name, .directory below) ∈ entries) :
    ProperName name ∧ (Entry.directory below).WellFormed := by
  cases directory.entries_wellFormed with
  | directory _ proper within => exact ⟨proper _ member, within _ member⟩

theorem below_distinct (directory : LocalesDirectory files localesPath entries) {name : Name}
    (member : (name, .directory below) ∈ entries) : (below.map Prod.fst).Nodup := by
  cases (directory.below_wellFormed member).2 with
  | directory distinct => exact distinct

theorem list_locale (directory : LocalesDirectory files localesPath entries)
    (member : (Text.toUtf8 code.text, .directory below) ∈ entries) :
    files.readDirectory (localesPath.join (.ofString code.text)) = .ok below := by
  obtain ⟨proper, _⟩ := directory.below_wellFormed member
  have short := (directory.short _ _ member).1
  refine Entry.readDirectory_eq_ok_iff.mpr ?_
  exact Entry.open?_join directory.listed member directory.distinct proper (fun _ => nofun) short

theorem readMessages_eq (directory : LocalesDirectory files localesPath entries) {source : Source}
    (listed : source.ListedIn entries) :
    readMessages files (source.path localesPath) = source.read localesPath := by
  obtain ⟨below, member, within, ending⟩ := listed
  have opened : files.open? (source.path localesPath) = .ok (.file source.content) := by
    obtain ⟨_, wellFormed⟩ := directory.below_wellFormed member
    have short := (directory.short _ _ member).2 _ _ within ending
    cases wellFormed with
    | directory distinct proper =>
        exact Entry.open?_join (directory.list_locale member) within distinct (proper _ within)
          (fun _ => nofun) short
  unfold readMessages Source.read Entry.readText Entry.readFile
  rw [opened]
  simp only [bind, Except.bind]
  cases Text.ofUtf8? source.content <;> rfl

theorem loadLocale_eq (directory : LocalesDirectory files localesPath entries)
    (member : (Text.toUtf8 code.text, .directory below) ∈ entries) :
    (loadLocale files localesPath code).value =
      (sourcesOf code below).mapM (Source.load localesPath) := by
  obtain ⟨_, wellFormed⟩ := directory.below_wellFormed member
  cases wellFormed with
  | directory distinct =>
      have listing : list files (localesPath.join (.ofString code.text)) = .ok below := by
        rw [list, directory.list_locale member]
      rw [loadLocale, listing, Attempt.value_andThen, sourcesOf, List.mapM_map]
      refine (Attempt.value_each _ _).trans (mapM_congr_of_mem fun file among => ?_)
      obtain ⟨ending, content, within⟩ := mem_messageFilesAmong_iff.mp among
      have listed : Source.ListedIn entries ⟨code, file, contentOf file below⟩ := by
        refine ⟨below, member, ?_, ending⟩
        rwa [contentOf_eq distinct within]
      rw [Function.comp_apply, Source.load, ← directory.readMessages_eq listed, value_loadFile]
      rfl

theorem available_eq (directory : LocalesDirectory files localesPath entries) :
    ∃ codes, (available files localesPath).value = .ok codes ∧
      (codes.Pairwise fun left right => Text.toUtf8 left.text < Text.toUtf8 right.text) ∧
      ∀ code, code ∈ codes ↔ ∃ below, (Text.toUtf8 code.text, .directory below) ∈ entries := by
  obtain ⟨codes, found, sorted, members⟩ :=
    localesAmong_eq_ok directory.distinct directory.decodable
  refine ⟨codes, ?_, sorted, members⟩
  have listing : list files localesPath = .ok entries := by rw [list, directory.listed]
  rw [available, listing]
  simp only [Except.bind, found]

/-- What is loaded, from the sources in order. -/
theorem load_eq (directory : LocalesDirectory files localesPath entries) :
    ∃ sources : List Source,
      (load files localesPath).value = sources.mapM (Source.load localesPath) ∧
      sources.Pairwise Source.Before ∧ ∀ source, source ∈ sources ↔ source.ListedIn entries := by
  obtain ⟨codes, found, sorted, members⟩ := directory.available_eq
  refine ⟨sourcesAmong entries codes, ?_, ?_, fun source => ?_⟩
  · -- Locale by locale the files are worked off; a failure in one is a failure in the whole.
    rw [load, Attempt.value_andThen, found, sourcesAmong, mapM_flatMap]
    have loaded : codes.mapM (fun code => (loadLocale files localesPath code).value) =
        codes.mapM fun code =>
          (sourcesOf code (belowOf code entries)).mapM (Source.load localesPath) := by
      refine mapM_congr_of_mem fun code among => ?_
      obtain ⟨below, member⟩ := (members code).mp among
      rw [directory.loadLocale_eq member, belowOf_eq directory.distinct member]
    change (Attempt.andThen _ _).value = _
    rw [Attempt.value_andThen, Attempt.value_each, loaded]
    cases codes.mapM fun code =>
      (sourcesOf code (belowOf code entries)).mapM (Source.load localesPath) <;> rfl
  · refine List.pairwise_flatMap.mpr ⟨fun code among => ?_, sorted.imp fun earlier => ?_⟩
    · obtain ⟨below, member⟩ := (members code).mp among
      rw [belowOf_eq directory.distinct member]
      exact pairwise_sourcesOf (directory.below_distinct member)
    · intro first firstAmong second secondAmong
      refine Or.inl ?_
      rwa [locale_of_mem firstAmong, locale_of_mem secondAmong]
  · simp only [sourcesAmong, List.mem_flatMap]
    constructor
    · rintro ⟨code, among, inside⟩
      obtain ⟨below, member⟩ := (members code).mp among
      rw [belowOf_eq directory.distinct member] at inside
      obtain ⟨rfl, ending, within⟩ :=
        (mem_sourcesOf_iff (directory.below_distinct member)).mp inside
      exact ⟨below, member, within, ending⟩
    · rintro ⟨below, member, within, ending⟩
      refine ⟨source.locale, (members _).mpr ⟨below, member⟩, ?_⟩
      rw [belowOf_eq directory.distinct member]
      exact (mem_sourcesOf_iff (directory.below_distinct member)).mpr ⟨rfl, ending, within⟩

end LocalesDirectory

/-! What the sources say, and what a registry of them answers. -/

namespace Source

variable {localesPath : Path} {source : Source} {messages : Namespace}

theorem distinctNames_of_read (read : source.read localesPath = .ok messages) :
    messages.DistinctNames := by
  unfold Source.read at read
  split at read
  · cases read
  · split at read
    · cases read
    · next value parsed =>
        split at read
        · cases read
        · next found converted =>
            cases read
            cases value with
            | object members =>
                have written := (Namespace.ofMembers_eq_ok_iff members messages).mp converted
                have distinct := (Json.fits_of_parse? parsed).2
                rw [written] at distinct
                exact (Tree.distinctKeys_toJson_iff (.nested messages)).mp distinct
            | null | boolean | number | string | array => cases converted

theorem load_eq_ok_iff {fragment : Fragment} :
    source.load localesPath = .ok fragment ↔
      ∃ messages, source.read localesPath = .ok messages ∧
        fragment = Fragment.empty.insert source.locale messages := by
  rw [load, map_eq_ok_iff]
  simp only [eq_comm]

theorem load_eq_error_iff {fault : ConfigurationFault} :
    source.load localesPath = .error fault ↔ source.read localesPath = .error fault := by
  rw [load]
  cases source.read localesPath <;> simp [Except.map]

theorem exists_load_iff :
    (∃ fragment, source.load localesPath = .ok fragment) ↔
      ∃ messages, source.read localesPath = .ok messages := by
  rw [load]
  cases source.read localesPath <;> simp [Except.map]

/-- What the source has for a locale. -/
def messages? (localesPath : Path) (code : LocaleCode) (source : Source) : Option Namespace :=
  if source.locale = code then (source.read localesPath).toOption else none

/-- The source has messages of the locale, and they decide the key. -/
def Decides (localesPath : Path) (code : LocaleCode) (key : String) (source : Source) : Prop :=
  source.locale = code ∧ ∃ messages, source.read localesPath = .ok messages ∧ messages.Decides key

theorem messages?_eq_some_iff {code : LocaleCode} :
    source.messages? localesPath code = some messages ↔
      source.locale = code ∧ source.read localesPath = .ok messages := by
  rw [messages?]
  cases source.read localesPath <;> simp [Except.toOption]

/-- What a fragment holds that the source contributed. -/
theorem get?_of_load {fragment : Fragment} (loaded : source.load localesPath = .ok fragment) :
    fragment.WellFormed ∧ ∀ code, fragment.get? code = source.messages? localesPath code := by
  obtain ⟨messages, read, rfl⟩ := load_eq_ok_iff.mp loaded
  have distinct := distinctNames_of_read read
  refine ⟨⟨List.nodup_singleton _, ?_⟩, fun code => ?_⟩
  · intro entry member
    obtain rfl := List.mem_singleton.mp member
    exact distinct
  · rw [messages?, read]
    rfl

end Source

namespace Registry

variable {localesPath : Path} {sources : List Source} {fragments : List Fragment}

theorem contributions_eq
    (loaded : List.Forall₂ (fun source fragment => source.load localesPath = .ok fragment)
      sources fragments) :
    (∀ fragment ∈ fragments, fragment.WellFormed) ∧ ∀ code,
      contributions fragments code = sources.filterMap (Source.messages? localesPath code) := by
  induction loaded with
  | nil => exact ⟨List.forall_mem_nil _, fun _ => rfl⟩
  | cons first _ ih =>
      obtain ⟨wellFormed, same⟩ := ih
      obtain ⟨firstWellFormed, held⟩ := Source.get?_of_load first
      refine ⟨List.forall_mem_cons.mpr ⟨firstWellFormed, wellFormed⟩, fun code => ?_⟩
      have later := same code
      unfold contributions at later ⊢
      rw [List.filterMap_cons, List.filterMap_cons, held code, later]

/-- Registries merged from sources answer as the last source of the locale that decides the key. -/
theorem resolve_merge_of_load
    (loaded : List.Forall₂ (fun source fragment => source.load localesPath = .ok fragment)
      sources fragments) (code : LocaleCode) (key : String) :
    (∀ earlier source later, sources = earlier ++ source :: later →
      source.Decides localesPath code key → (∀ next ∈ later, ¬next.Decides localesPath code key) →
      ∃ messages, source.read localesPath = .ok messages ∧
        (merge fragments).resolve code key = messages.resolve key) ∧
    ((∀ source ∈ sources, ¬source.Decides localesPath code key) →
      (merge fragments).resolve code key = none) := by
  obtain ⟨wellFormed, contributed⟩ := contributions_eq loaded
  obtain ⟨answer, nobody, _⟩ := resolve_merge_eq_lastDecider fragments wellFormed code key
  constructor
  · rintro earlier source later rfl ⟨same, messages, read, decided⟩ undecided
    refine ⟨messages, read, answer.trans ?_⟩
    have last : lastDecider? fragments code key = some messages := by
      have held := Source.messages?_eq_some_iff.mpr ⟨same, read⟩
      have silent : (later.filterMap (Source.messages? localesPath code)).reverse.find?
          (fun messages => decide (messages.Decides key)) = none := by
        refine List.find?_eq_none.mpr fun others member => ?_
        obtain ⟨next, among, holds⟩ := List.mem_filterMap.mp (List.mem_reverse.mp member)
        obtain ⟨same, read⟩ := Source.messages?_eq_some_iff.mp holds
        simpa using fun decides => undecided next among ⟨same, others, read, decides⟩
      rw [lastDecider?, contributed, List.filterMap_append, List.filterMap_cons, held]
      simp [silent, decided]
    rw [last]
    rfl
  · intro undecided
    refine nobody fun messages member => ?_
    rw [contributed] at member
    obtain ⟨source, among, holds⟩ := List.mem_filterMap.mp member
    obtain ⟨same, read⟩ := Source.messages?_eq_some_iff.mp holds
    exact fun decides => undecided source among ⟨same, messages, read, decides⟩

end Registry

/-- Every directory of the one listing is in the other, with the same files. -/
def HeldIn (entries others : List (Name × Entry)) : Prop :=
  ∀ name below, (name, .directory below) ∈ entries →
    ∃ again, (name, .directory again) ∈ others ∧
      ∀ file content, (file, .file content) ∈ below ↔ (file, .file content) ∈ again

/-- The listings hold the same directories, and those the same files, in whatever order. -/
def Relisted (entries others : List (Name × Entry)) : Prop :=
  HeldIn entries others ∧ HeldIn others entries

theorem HeldIn.source {entries others : List (Name × Entry)} (held : HeldIn entries others)
    {source : Source} (listed : source.ListedIn entries) : source.ListedIn others := by
  obtain ⟨below, member, within, ending⟩ := listed
  obtain ⟨again, present, same⟩ := held _ _ member
  exact ⟨again, present, (same _ _).mp within, ending⟩

theorem HeldIn.locale {entries others : List (Name × Entry)} (held : HeldIn entries others)
    {name : Name} (listed : ∃ below, (name, .directory below) ∈ entries) :
    ∃ below, (name, .directory below) ∈ others := by
  obtain ⟨below, member⟩ := listed
  obtain ⟨again, present, _⟩ := held _ _ member
  exact ⟨again, present⟩

theorem Source.Before.asymm {first second : Source} (before : first.Before second) :
    ¬second.Before first := by
  have irrefl (bytes : Bytes) : ¬bytes < bytes := List.lt_irrefl bytes
  rintro (later | ⟨sameLocale, later⟩)
  · rcases before with earlier | ⟨sameLocale, earlier⟩
    · exact irrefl _ (List.lt_trans earlier later)
    · exact irrefl _ (sameLocale ▸ later)
  · rcases before with earlier | ⟨_, earlier⟩
    · exact irrefl _ (sameLocale ▸ earlier)
    · exact irrefl _ (List.lt_trans earlier later)

instance : Std.Asymm Source.Before := ⟨fun _ _ before => before.asymm⟩

namespace LocalesDirectory

open LocaleFiles

variable {files other : Entry} {localesPath : Path} {entries others : List (Name × Entry)}

theorem relisted (directory : LocalesDirectory files localesPath entries)
    (again : LocalesDirectory other localesPath others) (relisted : Relisted entries others) :
    (available other localesPath).value = (available files localesPath).value ∧
      (load other localesPath).value = (load files localesPath).value := by
  obtain ⟨there, back⟩ := relisted
  constructor
  · obtain ⟨codes, found, sorted, members⟩ := directory.available_eq
    obtain ⟨otherCodes, otherFound, otherSorted, otherMembers⟩ := again.available_eq
    have : Std.Asymm fun left right : LocaleCode =>
        Text.toUtf8 left.text < Text.toUtf8 right.text :=
      ⟨fun _ _ below above => List.lt_irrefl _ (List.lt_trans below above)⟩
    rw [found, otherFound]
    refine congrArg Except.ok (otherSorted.eq_of_mem_iff sorted fun code => ?_)
    rw [members, otherMembers]
    exact ⟨back.locale, there.locale⟩
  · obtain ⟨sources, loaded, sorted, members⟩ := directory.load_eq
    obtain ⟨otherSources, otherLoaded, otherSorted, otherMembers⟩ := again.load_eq
    rw [loaded, otherLoaded]
    refine congrArg _ (otherSorted.eq_of_mem_iff sorted fun source => ?_)
    rw [members, otherMembers]
    exact ⟨back.source, there.source⟩

end LocalesDirectory

namespace Configuration

end Configuration

end MessageCatalog
