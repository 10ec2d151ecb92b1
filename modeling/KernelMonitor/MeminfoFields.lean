import KernelMonitor.TextLines
import KernelMonitor.Library.LastWrite

/-! # The fields of `/proc/meminfo`

`km_parse_meminfo` fills a record of seven fields from whatever lines the text has. Each
field holds the number after the last line with its name, so neither the other lines nor
the order of the lines that do not repeat a name can be seen in the result.
-/

namespace KernelMonitor

open Library

/-- The fields of `km_meminfo`. -/
inductive MeminfoField where
  | memTotal
  | memFree
  | memAvailable
  | buffers
  | cached
  | swapTotal
  | swapFree
  deriving DecidableEq, Repr

namespace MeminfoField

/-- The key the kernel publishes the field under. -/
def name : MeminfoField → Bytes
  | memTotal => text "MemTotal"
  | memFree => text "MemFree"
  | memAvailable => text "MemAvailable"
  | buffers => text "Buffers"
  | cached => text "Cached"
  | swapTotal => text "SwapTotal"
  | swapFree => text "SwapFree"

def get : MeminfoField → Meminfo → UInt64
  | memTotal => Meminfo.memTotal
  | memFree => Meminfo.memFree
  | memAvailable => Meminfo.memAvailable
  | buffers => Meminfo.buffers
  | cached => Meminfo.cached
  | swapTotal => Meminfo.swapTotal
  | swapFree => Meminfo.swapFree

theorem get_zero (field : MeminfoField) : field.get Meminfo.zero = 0 := by
  cases field <;> rfl

/-- A record is what its fields hold. -/
theorem get_ext {m m' : Meminfo} (same : ∀ field : MeminfoField, field.get m = field.get m') :
    m = m' := by
  cases m
  cases m'
  simp only [Meminfo.mk.injEq]
  exact ⟨same memTotal, same memFree, same memAvailable, same buffers, same cached,
    same swapTotal, same swapFree⟩

theorem get_store_own (field : MeminfoField) (out : Meminfo) (v : UInt64) :
    field.get (out.store field.name v) = v := by
  cases field <;> rfl

theorem get_ite {field : MeminfoField} {out one other : Meminfo} {b : Prop} [Decidable b]
    (here : b → field.get one = field.get out) (there : field.get other = field.get out) :
    field.get (if b then one else other) = field.get out := by
  split
  · rename_i chosen
    exact here chosen
  · exact there

theorem get_store_other {field : MeminfoField} {out : Meminfo} {key : Bytes} {v : UInt64}
    (other : key ≠ field.name) : field.get (out.store key v) = field.get out := by
  unfold Meminfo.store
  refine get_ite ?_ <| get_ite ?_ <| get_ite ?_ <| get_ite ?_ <| get_ite ?_ <| get_ite ?_ <|
    get_ite ?_ rfl
  all_goals
    -- each branch writes one field, and the key is not that of `field`
    intro own
    cases field <;> first | rfl | exact absurd own other

theorem get_store (field : MeminfoField) (out : Meminfo) (key : Bytes) (v : UInt64) :
    field.get (out.store key v) = if key = field.name then v else field.get out := by
  split
  · rename_i own
    rw [own, get_store_own]
  · rename_i other
    exact get_store_other other

end MeminfoField

/-! ## What each field reads -/

/-- What the parser's line buffer keeps of each line, as key and number. -/
def meminfoEntries (lines : List Bytes) : List (Bytes × UInt64) :=
  (lines.filterMap fun line => parseKeyValue (line.take 511)).map (Prod.map id strtoul)

theorem foldl_readEntry (lines : List Bytes) (out : Meminfo) :
    lines.foldl Meminfo.readEntry out =
      ((lines.filterMap parseKeyValue).map (Prod.map id strtoul)).foldl
        (fun out entry => out.store entry.1 entry.2) out := by
  induction lines generalizing out with
  | nil => rfl
  | cons line lines ih =>
      rw [List.foldl_cons, ih, List.filterMap_cons]
      cases parsed : parseKeyValue line with
      | none => simp only [Meminfo.readEntry, parsed]
      | some entry => simp only [Meminfo.readEntry, parsed, List.map_cons, List.foldl_cons,
          Prod.map_fst, Prod.map_snd, id_eq]

theorem get_parseMeminfo (file : TextFile) (field : MeminfoField) :
    field.get (parseMeminfo file.text) =
      (lastValue field.name (meminfoEntries file.lines)).getD 0 := by
  have room : 512 ≠ 0 := by decide
  have entries := TextFile.entries_join file.single file.finalNewline room
  rw [parseMeminfo, foldl_readEntry, TextFile.text, entries,
    read_foldl field.get_store, field.get_zero]
  rfl

theorem parseMeminfo_congr {file file' : TextFile}
    (same : ∀ field : MeminfoField, lastValue field.name (meminfoEntries file.lines) =
      lastValue field.name (meminfoEntries file'.lines)) :
    parseMeminfo file.text = parseMeminfo file'.text :=
  MeminfoField.get_ext fun field => by rw [get_parseMeminfo, get_parseMeminfo, same field]

/-! ## In terms of the lines -/

/-- The first 511 bytes of the line are an entry with this key and value. -/
def LineEntry (line key value : Bytes) : Prop := Entry (line.take 511) key value

/-- The value on the last line with this key. -/
def LastEntry (lines : List Bytes) (key value : Bytes) : Prop :=
  ∃ (before : List Bytes) (line : Bytes) (after : List Bytes),
    lines = before ++ line :: after ∧ LineEntry line key value ∧
      ∀ later ∈ after, ∀ other, ¬ LineEntry later key other

/-- The line has the name of a field as its key. -/
def Known (line : Bytes) : Prop :=
  ∃ (field : MeminfoField) (value : Bytes), LineEntry line field.name value

/-- The two lines do not have one field's name both. -/
def KeysDiffer (line other : Bytes) : Prop :=
  ∀ (field : MeminfoField) (value value' : Bytes),
    ¬ (LineEntry line field.name value ∧ LineEntry other field.name value')

theorem mem_meminfoEntries {lines : List Bytes} {key : Bytes} {v : UInt64}
    (member : (key, v) ∈ meminfoEntries lines) :
    ∃ line ∈ lines, ∃ value, LineEntry line key value ∧ strtoul value = v := by
  obtain ⟨⟨key', value⟩, parsed, pair⟩ := List.mem_map.mp member
  obtain ⟨line, inside, read⟩ := List.mem_filterMap.mp parsed
  cases pair
  exact ⟨line, inside, value, parseKeyValue_iff.mp read, rfl⟩

theorem meminfoEntries_foreign {lines : List Bytes} {key : Bytes}
    (foreign : ∀ line ∈ lines, ∀ value, ¬ LineEntry line key value) :
    ∀ entry ∈ meminfoEntries lines, entry.1 ≠ key := by
  rintro ⟨key', v⟩ member rfl
  obtain ⟨line, inside, value, entry, _⟩ := mem_meminfoEntries member
  exact foreign line inside value entry

theorem meminfoEntries_append (front back : List Bytes) :
    meminfoEntries (front ++ back) = meminfoEntries front ++ meminfoEntries back := by
  simp only [meminfoEntries, List.filterMap_append, List.map_append]

theorem meminfoEntries_cons {line key value : Bytes} (entry : LineEntry line key value)
    (rest : List Bytes) :
    meminfoEntries (line :: rest) = (key, strtoul value) :: meminfoEntries rest := by
  have parsed : parseKeyValue (line.take 511) = some (key, value) := parseKeyValue_iff.mpr entry
  simp only [meminfoEntries, List.filterMap_cons, parsed, List.map_cons, Prod.map_apply, id_eq]

theorem lastValue_of_lastEntry {lines : List Bytes} {key value : Bytes}
    (last : LastEntry lines key value) :
    lastValue key (meminfoEntries lines) = some (strtoul value) := by
  obtain ⟨before, line, after, rfl, entry, none⟩ := last
  rw [meminfoEntries_append, meminfoEntries_cons entry]
  exact lastValue_of_last (meminfoEntries_foreign none)

theorem onceUnder_meminfoEntries {lines : List Bytes} (apart : lines.Pairwise KeysDiffer)
    (field : MeminfoField) : OnceUnder field.name (meminfoEntries lines) := by
  unfold OnceUnder meminfoEntries
  rw [List.pairwise_map, List.pairwise_filterMap]
  apply apart.imp
  rintro line other differ ⟨key, value⟩ read ⟨key', value'⟩ read' ⟨own, own'⟩
  have own : key = field.name := own
  have own' : key' = field.name := own'
  subst own own'
  exact differ field value value' ⟨parseKeyValue_iff.mp read, parseKeyValue_iff.mp read'⟩

/-- Every C string has its lines, and each field is the number on the last line with its
    name, zero without one. Lines that do not repeat a name may come in any order, and
    other lines may come or go. -/
theorem meminfo_fields :
    (∀ content : Bytes, 0 ∉ content → ∃ file : TextFile, file.text = content) ∧
    (∀ (file : TextFile) (field : MeminfoField),
      (∀ value, LastEntry file.lines field.name value →
        field.get (parseMeminfo file.text) = strtoul value) ∧
      ((∀ line ∈ file.lines, ∀ value, ¬ LineEntry line field.name value) →
        field.get (parseMeminfo file.text) = 0)) ∧
    (∀ file file' : TextFile, file.lines.Perm file'.lines → file.lines.Pairwise KeysDiffer →
      parseMeminfo file.text = parseMeminfo file'.text) ∧
    ∀ (file file' : TextFile) (before inserted after : List Bytes),
      file.lines = before ++ after → file'.lines = before ++ inserted ++ after →
      (∀ line ∈ inserted, ¬ Known line) → parseMeminfo file.text = parseMeminfo file'.text := by
  constructor
  · intro content free
    exact TextFile.exists_text free
  constructor
  · intro file field
    rw [get_parseMeminfo]
    constructor
    · intro value last
      rw [lastValue_of_lastEntry last, Option.getD_some]
    · intro none
      rw [lastValue_of_foreign (meminfoEntries_foreign none), Option.getD_none]
  constructor
  · intro file file' same apart
    apply parseMeminfo_congr
    intro field
    exact lastValue_perm ((same.filterMap _).map _) (onceUnder_meminfoEntries apart field)
  · intro file file' before inserted after lines lines' foreign
    apply parseMeminfo_congr
    intro field
    have skipped : lastValue field.name (meminfoEntries inserted) = none :=
      lastValue_of_foreign (meminfoEntries_foreign fun line member value entry =>
        foreign line member ⟨field, value, entry⟩)
    rw [lines, lines']
    simp only [meminfoEntries_append, lastValue_append, skipped, Option.none_or]

/-! ## An example -/

def lineKey (line : Bytes) : Option Bytes := (parseKeyValue (line.take 511)).map Prod.fst

theorem LineEntry.lineKey_eq {line key value : Bytes} (entry : LineEntry line key value) :
    lineKey line = some key := by
  have parsed : parseKeyValue (line.take 511) = some (key, value) := parseKeyValue_iff.mpr entry
  rw [lineKey, parsed, Option.map_some]

theorem keysDiffer_of_lineKey {line other : Bytes} (differ : lineKey line ≠ lineKey other) :
    KeysDiffer line other := by
  intro field value value' both
  exact differ (both.1.lineKey_eq.trans both.2.lineKey_eq.symm)

theorem not_known_of_lineKey {line : Bytes}
    (foreign : ∀ field : MeminfoField, lineKey line ≠ some field.name) : ¬ Known line := by
  rintro ⟨field, value, entry⟩
  exact foreign field entry.lineKey_eq

def meminfoTotalFirst : TextFile where
  lines := [text " MemTotal :16 kB", text "Cached: 4 kB"]
  finalNewline := true
  single := by decide
  nulFree := by decide

def meminfoCachedFirst : TextFile where
  lines := [text "Cached: 4 kB", text " MemTotal :16 kB"]
  finalNewline := false
  single := by decide
  nulFree := by decide

def meminfoWithSwapCached : TextFile where
  lines := [text "Cached: 4 kB", text "SwapCached: 9 kB", text " MemTotal :16 kB"]
  finalNewline := true
  single := by decide
  nulFree := by decide

theorem meminfo_fields_example :
    (∃ file : TextFile, file.text = text "Cached: 4 kB\n\n") ∧
    MeminfoField.memTotal.get (parseMeminfo meminfoTotalFirst.text) = strtoul (text "16 kB") ∧
    MeminfoField.swapFree.get (parseMeminfo meminfoTotalFirst.text) = 0 ∧
    parseMeminfo meminfoTotalFirst.text = parseMeminfo meminfoCachedFirst.text ∧
    parseMeminfo meminfoCachedFirst.text = parseMeminfo meminfoWithSwapCached.text := by
  have cachedForeign : lineKey (text "Cached: 4 kB") ≠ some MeminfoField.memTotal.name := by decide
  have last : LastEntry meminfoTotalFirst.lines MeminfoField.memTotal.name (text "16 kB") := by
    refine ⟨[], _, _, rfl, parseKeyValue_iff.mp (by decide), ?_⟩
    intro later member other entry
    obtain rfl := List.mem_singleton.mp member
    exact cachedForeign entry.lineKey_eq
  have noSwap : ∀ line ∈ meminfoTotalFirst.lines, ∀ value,
      ¬ LineEntry line MeminfoField.swapFree.name value := by
    intro line member value entry
    have keys : ∀ line ∈ meminfoTotalFirst.lines,
        lineKey line ≠ some MeminfoField.swapFree.name := by decide
    exact keys line member entry.lineKey_eq
  have apart : meminfoTotalFirst.lines.Pairwise KeysDiffer :=
    List.pairwise_pair.mpr (keysDiffer_of_lineKey (by decide))
  have unknown : ∀ line ∈ [text "SwapCached: 9 kB"], ¬ Known line := by
    intro line member
    obtain rfl := List.mem_singleton.mp member
    exact not_known_of_lineKey fun field => by cases field <;> decide
  exact ⟨meminfo_fields.1 _ (by decide),
    (meminfo_fields.2.1 meminfoTotalFirst .memTotal).1 _ last,
    (meminfo_fields.2.1 meminfoTotalFirst .swapFree).2 noSwap,
    meminfo_fields.2.2.1 _ _ (List.Perm.swap _ _ _) apart,
    meminfo_fields.2.2.2 _ _ [text "Cached: 4 kB"] [text "SwapCached: 9 kB"]
      [text " MemTotal :16 kB"] rfl rfl unknown⟩

end KernelMonitor
