/-
# The release manifest (`updater.rs`)

`manifest_select` walks the rows of a manifest and takes the first prebuilt binary that this host
can use, or else the last source release that it can.

* `manifestSelect_eq` — what is taken, among all the usable rows, and what is said where none is.
* `manifestSelect_usable` — a row that is taken can be used, and the first usable binary is taken.
-/
import IrcBot.Chanenf
import IrcBot.Config
import IrcBot.UpdateUrl
import IrcBot.Lib.Words

namespace IrcBot.Manifest

open Cstr Chancfg Chanenf Config UpdateUrl Lib

/-! ### The rows -/

structure ManifestRow where
  url : Str
  hash : Str
  deps : Str
  kind : Str
  arch : Str
  libc : Str
  minFrom : Str
  /-- The CPU features the artifact needs. -/
  cpu : Str
deriving DecidableEq, Repr

/-- How long each field may be. -/
def fieldCaps : List Nat := [63, 63, 511, 127, 255, 7, 31, 15, 63, 255]

/-- `parse_row`: the version, and the row. -/
def parseRow (line : Str) : Option (Str × ManifestRow) :=
  let f := splitWhitespace line
  if f.length < 5 then none
  else if (f.zip fieldCaps).any fun p => p.2 < p.1.length then none
  else
    some (f.getD 0 [],
      { url := f.getD 2 [], hash := f.getD 3 [], deps := f.getD 4 []
        kind := f.getD 5 (str "src"), arch := f.getD 6 (str "any"), libc := f.getD 7 (str "any")
        minFrom := f.getD 8 (str "*"), cpu := f.getD 9 (str "-") })

/-- The lines that may be rows. -/
def rowLines (manifest : Str) : List Str :=
  (splitOn (byte '\n') manifest).filter fun l => !l.isEmpty && l.head? ≠ some (byte '#')

/-- The rows of a manifest. -/
def rows (manifest : Str) : List (Str × ManifestRow) := (rowLines manifest).filterMap parseRow

/-! ### What a row asks of the host -/

/-- The host, as the checks of a row see it. -/
structure Host where
  bases : Bases := {}
  arch : Str := str "x86_64"
  libc : Str := str "gnu"
  /-- The features the CPU reports. -/
  features : List Str := []
  /-- The shell finds the tool, or the library. -/
  found : Str → Bool := fun _ => false

/-- `version_eq`. -/
def versionEq (a b : Str) : Bool := eqIc (stripV a) (stripV b)

/-- `fits_host`. -/
def fitsHost (h : Host) (row : ManifestRow) : Bool :=
  (row.arch == str "any" || eqIc row.arch h.arch) && (row.libc == str "any" || eqIc row.libc h.libc)

/-- `valid_dependency_name`. -/
def validDependencyName (dep : Str) : Bool :=
  !dep.isEmpty && dep.length ≤ 64 && dep.all fun c => isAlnum c || (str "-_.+").contains c

/-- `check_dependency`. -/
def checkDependency (h : Host) (dep : Str) : Bool := validDependencyName dep && h.found dep

/-- `missing_deps`. -/
def missingDeps (h : Host) (row : ManifestRow) : List Str :=
  if eqIc row.deps (str "none") then []
  else (splitOn (byte ',') row.deps).filter fun d => !d.isEmpty && !checkDependency h d

/-- The CPU has a feature; `asimd` is the other name of `neon`. -/
def hasFeature (features : List Str) (feat : Str) : Bool :=
  features.contains feat || (feat == str "neon" && features.contains (str "asimd"))

/-- The feature that an entry of the CPU column needs on this architecture. -/
def entryFeature (arch entry : Str) : Option Str :=
  match splitOnce (byte ':') entry with
  | some (a, f) => if a = arch then some f else none
  | none => some entry

/-- `cpu_missing`. -/
def cpuMissing (spec arch : Str) (features : List Str) : Option Str :=
  if spec.isEmpty || spec == str "-" then none
  else ((splitOn (byte ',') spec).filter (!·.isEmpty)).findSome? fun entry =>
    (entryFeature arch entry).filter (!hasFeature features ·)

/-! ### Choosing a row -/

/-- Why a row of the wanted version is passed over. -/
def rowFault (h : Host) (variant : Str) (row : ManifestRow) : Option Str :=
  if !validateUrl h.bases row.url then some (str "untrusted artifact URL in manifest")
  else if !fitsHost h row then some (str "no artifact for this host arch/libc")
  else
    match cpuMissing row.cpu h.arch h.features with
    | some f =>
        some (str "this CPU lacks " ++ f ++ str ", which the " ++ variant ++ str " build needs")
    | none =>
        if row.minFrom ≠ str "*" ∧ versionCmp botVersion row.minFrom = .lt then
          some (str "running version is below the artifact's min_from " ++ row.minFrom)
        else if missingDeps h row ≠ [] then
          some (str "missing build dependencies: " ++ (str ", ").intercalate (missingDeps h row))
        else none

/-- `is_bin`. -/
def isBin (row : ManifestRow) : Bool := eqIc row.kind (str "bin")

/-- The walk over the lines, with what is said of the last row that was passed over and the last
usable row. -/
def selectFrom (h : Host) (version variant : Str) :
    List Str → Str → Option ManifestRow → Except Str ManifestRow
  | [], why, none => .error why
  | [], _, some row => .ok row
  | line :: lines, why, pick =>
      match parseRow line with
      | none => selectFrom h version variant lines why pick
      | some (rowVer, row) =>
          if !versionEq rowVer version then selectFrom h version variant lines why pick
          else
            match rowFault h variant row with
            | some why => selectFrom h version variant lines why pick
            | none =>
                -- usable: only a source row can be bettered by a later one
                if isBin row then .ok row
                else selectFrom h version variant lines why (some row)

/-- `manifest_select`. -/
def manifestSelect (h : Host) (manifest version variant : Str) : Except Str ManifestRow :=
  selectFrom h version variant (rowLines manifest)
    (str "requested version is not in the manifest") none

/-! ### What the walk comes to -/

/-- The rows of the wanted version. -/
def wanted (version : Str) (rs : List (Str × ManifestRow)) : List ManifestRow :=
  (rs.filter fun r => versionEq r.1 version).map Prod.snd

/-- Those of them that this host can use. -/
def usableRows (h : Host) (version variant : Str) (rs : List (Str × ManifestRow)) :
    List ManifestRow :=
  (wanted version rs).filter fun row => rowFault h variant row = none

/-- The first binary, or else the last row. -/
def best (usable : List ManifestRow) : Option ManifestRow :=
  (usable.find? isBin).or usable.getLast?

theorem wanted_cons_of_pos {version : Str} {r : Str × ManifestRow}
    (hver : versionEq r.1 version = true) (rs : List (Str × ManifestRow)) :
    wanted version (r :: rs) = r.2 :: wanted version rs := by
  rw [wanted, List.filter_cons, if_pos hver]
  rfl

theorem wanted_cons_of_neg {version : Str} {r : Str × ManifestRow}
    (hver : versionEq r.1 version = false) (rs : List (Str × ManifestRow)) :
    wanted version (r :: rs) = wanted version rs := by
  rw [wanted, List.filter_cons, if_neg (by simp [hver])]
  rfl

/-- The walk in one formula. -/
theorem selectFrom_eq (h : Host) (version variant : Str) (lines : List Str) (why : Str)
    (pick : Option ManifestRow) :
    selectFrom h version variant lines why pick =
      match (best (usableRows h version variant (lines.filterMap parseRow))).or pick with
      | some row => .ok row
      | none =>
          .error (((wanted version (lines.filterMap parseRow)).filterMap
            (rowFault h variant)).getLast?.getD why) := by
  induction lines generalizing why pick with
  | nil => cases pick <;> rfl
  | cons line lines ih =>
      rw [selectFrom]
      split
      · rename_i hrow
        rw [List.filterMap_cons_none hrow]
        exact ih why pick
      · rename_i rowVer row hrow
        rw [List.filterMap_cons_some hrow]
        split
        · rename_i hver
          rw [usableRows, wanted_cons_of_neg (by simpa using hver)]
          exact ih why pick
        · rename_i hver
          rw [usableRows, wanted_cons_of_pos (by simpa using hver)]
          split
          · rename_i fault hfault
            rw [List.filter_cons_of_neg (by simp [hfault]), List.filterMap_cons_some hfault,
              List.getLast?_cons]
            exact ih fault pick
          · rename_i hfault
            rw [List.filter_cons_of_pos (by simp [hfault]), List.filterMap_cons_none hfault, best]
            split
            · rename_i hbin
              rw [List.find?_cons_of_pos hbin]
              rfl
            · rename_i hbin
              rw [ih why (some row), usableRows, List.find?_cons_of_neg hbin,
                List.getLast?_cons, best]
              -- a later row that is usable takes the place of this one
              generalize (List.filter _ _).find? isBin = bin
              generalize (List.filter _ _).getLast? = last
              cases bin <;> cases last <;> rfl

theorem manifestSelect_eq (h : Host) (manifest version variant : Str) :
    manifestSelect h manifest version variant =
      match best (usableRows h version variant (rows manifest)) with
      | some row => .ok row
      | none =>
          .error (((wanted version (rows manifest)).filterMap (rowFault h variant)).getLast?.getD
            (str "requested version is not in the manifest")) := by
  rw [manifestSelect, selectFrom_eq, Option.or_none]
  rfl

/-! ### Rows that can be used -/

/-- The CPU has what the column asks for, entry by entry. -/
def CpuFits (spec arch : Str) (features : List Str) : Prop :=
  spec = [] ∨ spec = str "-" ∨ ∀ entry ∈ splitOn (byte ',') spec, entry ≠ [] →
    ∀ feat ∈ entryFeature arch entry, hasFeature features feat = true

/-- A row that this host can use for a version. -/
structure Usable (h : Host) (version : Str) (r : Str × ManifestRow) : Prop where
  version : versionEq r.1 version = true
  url : validateUrl h.bases r.2.url = true
  arch : r.2.arch = str "any" ∨ eqIc r.2.arch h.arch = true
  libc : r.2.libc = str "any" ∨ eqIc r.2.libc h.libc = true
  cpu : CpuFits r.2.cpu h.arch h.features
  minFrom : r.2.minFrom = str "*" ∨ versionCmp botVersion r.2.minFrom ≠ .lt
  deps : eqIc r.2.deps (str "none") = true ∨
    ∀ d ∈ splitOn (byte ',') r.2.deps, d ≠ [] → checkDependency h d = true

theorem cpuMissing_eq_none {spec arch : Str} {features : List Str} :
    cpuMissing spec arch features = none ↔ CpuFits spec arch features := by
  unfold cpuMissing CpuFits
  by_cases hnone : spec = [] ∨ spec = str "-"
  · rw [if_pos (by simpa using hnone)]
    exact iff_of_true rfl (or_assoc.mp (.inl hnone))
  · rw [if_neg (by simpa using hnone)]
    rw [← or_assoc, or_iff_right hnone]
    simp [List.findSome?_eq_none_iff, Option.filter_eq_none_iff]

theorem missingDeps_eq_nil {h : Host} {row : ManifestRow} :
    missingDeps h row = [] ↔ eqIc row.deps (str "none") = true ∨
      ∀ d ∈ splitOn (byte ',') row.deps, d ≠ [] → checkDependency h d = true := by
  unfold missingDeps
  split
  · rename_i hnone
    exact iff_of_true rfl (.inl hnone)
  · rename_i hnone
    rw [or_iff_right hnone]
    simp [List.filter_eq_nil_iff]

theorem fitsHost_iff {h : Host} {row : ManifestRow} :
    fitsHost h row = true ↔ (row.arch = str "any" ∨ eqIc row.arch h.arch = true) ∧
      (row.libc = str "any" ∨ eqIc row.libc h.libc = true) := by
  simp [fitsHost]

/-- The checks of a row are what makes it usable. -/
theorem rowFault_eq_none {h : Host} {version variant : Str} {r : Str × ManifestRow} :
    versionEq r.1 version = true ∧ rowFault h variant r.2 = none ↔ Usable h version r := by
  unfold rowFault
  constructor
  · rintro ⟨hver, hnone⟩
    split at hnone
    · cases hnone
    · rename_i hurl
      split at hnone
      · cases hnone
      · rename_i hfits
        split at hnone
        · cases hnone
        · rename_i hcpu
          split at hnone
          · cases hnone
          · rename_i hmin
            split at hnone
            · cases hnone
            · rename_i hdeps
              obtain ⟨harch, hlibc⟩ := fitsHost_iff.mp (by simpa using hfits)
              exact ⟨hver, by simpa using hurl, harch, hlibc, cpuMissing_eq_none.mp hcpu,
                Decidable.or_iff_not_not_and_not.mpr fun hno => hmin ⟨hno.1, not_not.mp hno.2⟩,
                missingDeps_eq_nil.mp (not_not.mp hdeps)⟩
  · intro husable
    refine ⟨husable.version, ?_⟩
    have hfits := fitsHost_iff.mpr ⟨husable.arch, husable.libc⟩
    have hmin : ¬ (r.2.minFrom ≠ str "*" ∧ versionCmp botVersion r.2.minFrom = .lt) :=
      fun hno => husable.minFrom.elim hno.1 fun hge => hge hno.2
    rw [if_neg (by simp [husable.url]), if_neg (by simp [hfits]),
      cpuMissing_eq_none.mpr husable.cpu]
    dsimp only
    rw [if_neg hmin, if_neg (not_not.mpr (missingDeps_eq_nil.mpr husable.deps))]

theorem mem_usableRows {h : Host} {version variant : Str} {rs : List (Str × ManifestRow)}
    {row : ManifestRow} :
    row ∈ usableRows h version variant rs ↔ ∃ r ∈ rs, r.2 = row ∧ Usable h version r := by
  simp only [usableRows, wanted, List.mem_filter, List.mem_map, decide_eq_true_eq]
  constructor
  · rintro ⟨⟨r, ⟨hmem, hver⟩, rfl⟩, hfault⟩
    exact ⟨r, hmem, rfl, rowFault_eq_none.mp ⟨hver, hfault⟩⟩
  · rintro ⟨r, hmem, rfl, husable⟩
    obtain ⟨hver, hfault⟩ := rowFault_eq_none.mpr husable
    exact ⟨⟨r, ⟨hmem, hver⟩, rfl⟩, hfault⟩

theorem mem_of_best {rs : List ManifestRow} {row : ManifestRow}
    (h : best rs = some row) : row ∈ rs := by
  unfold best at h
  rcases Option.or_eq_some_iff.mp h with hfind | ⟨-, hlast⟩
  · exact List.mem_of_find?_eq_some hfind
  · exact List.mem_of_getLast? hlast

/-- A prebuilt binary that can be used. -/
def UsableBin (h : Host) (version : Str) (r : Str × ManifestRow) : Prop :=
  Usable h version r ∧ isBin r.2 = true

/-- The first usable binary, as a search over the rows. -/
theorem find?_usableRows {h : Host} {version variant : Str} {rs : List (Str × ManifestRow)}
    {row : ManifestRow} :
    (usableRows h version variant rs).find? isBin = some row ↔
      ∃ before first after, rs = before ++ first :: after ∧ first.2 = row ∧
        UsableBin h version first ∧ ∀ r ∈ before, ¬ UsableBin h version r := by
  have hiff (r : Str × ManifestRow) : decide (versionEq r.1 version = true ∧
      decide (decide (rowFault h variant r.2 = none) = true ∧ isBin r.2 = true) = true) = true ↔
        UsableBin h version r := by
    simp only [decide_eq_true_eq]
    rw [← and_assoc, rowFault_eq_none]
    rfl
  rw [usableRows, wanted, List.find?_filter, List.find?_map, List.find?_filter,
    Option.map_eq_some_iff]
  constructor
  · rintro ⟨first, hfind, rfl⟩
    obtain ⟨hfirst, before, after, rfl, hbefore⟩ := List.find?_eq_some_iff_append.mp hfind
    refine ⟨before, first, after, rfl, rfl, (hiff first).mp hfirst, fun r hr hbin => ?_⟩
    have hnot := hbefore r hr
    rw [Bool.not_eq_true'] at hnot
    exact Bool.false_ne_true (hnot.symm.trans ((hiff r).mpr hbin))
  · rintro ⟨before, first, after, rfl, rfl, hfirst, hbefore⟩
    refine ⟨first, List.find?_eq_some_iff_append.mpr ⟨(hiff first).mpr hfirst, before, after, rfl,
      fun r hr => ?_⟩, rfl⟩
    rw [Bool.not_eq_true']
    exact Bool.eq_false_iff.mpr fun hbin => hbefore r hr ((hiff r).mp hbin)

/-- **The choice of an artifact.** A row that is chosen can be used; and where some binary can be
used, the first one is chosen, whatever the other rows are. -/
theorem manifestSelect_usable (h : Host) (manifest version variant : Str) :
    (∀ row, manifestSelect h manifest version variant = .ok row →
      ∃ r ∈ rows manifest, r.2 = row ∧ Usable h version r) ∧
    ((∃ r ∈ rows manifest, UsableBin h version r) →
      ∃ before first after, rows manifest = before ++ first :: after ∧
        UsableBin h version first ∧ (∀ r ∈ before, ¬ UsableBin h version r) ∧
        manifestSelect h manifest version variant = .ok first.2) := by
  rw [manifestSelect_eq]
  constructor
  · intro row hrow
    split at hrow
    · rename_i chosen hbest
      cases hrow
      exact mem_usableRows.mp (mem_of_best hbest)
    · cases hrow
  · rintro ⟨r, hr, husable, hbin⟩
    have hmem : r.2 ∈ usableRows h version variant (rows manifest) :=
      mem_usableRows.mpr ⟨r, hr, rfl, husable⟩
    cases hfind : (usableRows h version variant (rows manifest)).find? isBin with
    | none => exact absurd hbin (List.find?_eq_none.mp hfind r.2 hmem)
    | some row =>
        obtain ⟨before, first, after, hrows, rfl, hfirst, hbefore⟩ := find?_usableRows.mp hfind
        exact ⟨before, first, after, hrows, hfirst, hbefore, by rw [best, hfind, Option.some_or]⟩

/-- A source release, and a binary for this host behind a comment and a row that is too short. -/
example : (manifestSelect {}
    (str "v9 d https://github.com/a.tar.gz aa none\n# c\nv9 d\nv9 d https://github.com/b.tar.gz bb none bin x86_64 gnu *\n")
    (str "9") (str "rs")).map (·.hash) = .ok (str "bb") := by
  decide +kernel

end IrcBot.Manifest
