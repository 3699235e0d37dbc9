/-
# The hand-off marker of an upgrade (`updater.rs`)

`marker_write` leaves the upgrade, the version and the variant on one line of a file, and the
channels that the bot holds ops in on a second. The build that is started then reads them with
`parse_marker`.

* `parseMarker_markerText` — what is read: the channels word by word.
* `marker_roundTrip_iff` — it is what was written exactly when no name of a channel has white
  space in it.
-/
import IrcBot.Chancfg
import IrcBot.Lib.Words
import Mathlib.Data.List.DropRight

namespace IrcBot.Marker

open Cstr Chancfg Lib Lib.Utf8

/-! ### Writing -/

/-- The names that go on the second line. -/
def isListed (c : Str) : Bool := !c.isEmpty && !c.any (str " \r\n").contains

/-- The second line. -/
def opsLine (ops : List Str) : Str :=
  (ops.filter isListed).foldl (fun line c => line ++ byte ' ' :: c) (str "ops")

/-- `marker_write`: what it stores. -/
def markerText (upgradeId targetVer variant : Str) (ops : List Str) : Str :=
  upgradeId ++ str "|" ++ targetVer ++ str "|" ++ variant ++ str "\n" ++ opsLine ops ++ str "\n"

/-! ### Reading -/

/-- A line without the carriage return at its end. -/
def stripCr (l : Str) : Str := if l.getLast? = some (byte '\r') then l.dropLast else l

/-- `lines`: the last line may end without a line feed. -/
def lines (s : Str) : List Str :=
  let pieces := splitOn (byte '\n') s
  pieces.dropLast.map stripCr ++ pieces.getLast?.toList.filter (!·.isEmpty)

/-- `trim_end_matches` for line breaks. -/
def trimBreaks (l : Str) : Str := l.rdropWhile fun b => b = byte '\r' ∨ b = byte '\n'

/-- The channels of a line, if it is one of ops. -/
def opsOf (l : Str) : Option (List Str) :=
  match splitWhitespace l with
  | w :: ws => if w = str "ops" then some ws else none
  | [] => none

/-- `parse_marker`. -/
def parseMarker (body : Str) : Option PendingUpgrade :=
  match lines body with
  | [] => none
  | line :: more =>
      match splitPipes 3 (trimBreaks line) with
      | id :: ver :: rest =>
          let variant := rest.headD []
          if id.isEmpty || ver.isEmpty || 7 < variant.length then none
          else some { id, version := ver, variant, ops := (more.findSome? opsOf).getD [] }
      | _ => none

/-! ### The lines of a marker -/

/-- A field of the first line. -/
def IsField (s : Str) : Prop := byte '|' ∉ s ∧ byte '\r' ∉ s ∧ byte '\n' ∉ s

instance (s : Str) : Decidable (IsField s) := inferInstanceAs (Decidable (_ ∧ _ ∧ _))

theorem lines_two {a b : Str} (ha : byte '\n' ∉ a) (hb : byte '\n' ∉ b) :
    lines (a ++ byte '\n' :: (b ++ [byte '\n'])) = [stripCr a, stripCr b] := by
  rw [lines, splitOn_append ha, splitOn_append hb]
  rfl

theorem stripCr_eq_self {l : Str} (h : byte '\r' ∉ l) : stripCr l = l :=
  if_neg fun hlast => h (List.mem_of_getLast? hlast)

theorem trimBreaks_eq_self {l : Str} (hcr : byte '\r' ∉ l) (hlf : byte '\n' ∉ l) :
    trimBreaks l = l := by
  refine List.rdropWhile_eq_self_iff.mpr fun hne hlast => ?_
  have hmem := List.getLast_mem hne
  rcases of_decide_eq_true hlast with heq | heq
  · exact hcr (heq ▸ hmem)
  · exact hlf (heq ▸ hmem)

theorem opsLine_eq (ops : List Str) :
    opsLine ops = str "ops" ++ (ops.filter isListed).flatMap (byte ' ' :: ·) := by
  unfold opsLine
  generalize str "ops" = line
  induction ops.filter isListed generalizing line with
  | nil => simp
  | cons c cs ih => rw [List.foldl_cons, ih, List.flatMap_cons, List.append_assoc]

/-- What goes on the second line can be told apart by spaces. -/
theorem isListed_iff {c : Str} :
    isListed c = true ↔ c ≠ [] ∧ ∀ b ∈ c, b ≠ byte ' ' ∧ b ≠ byte '\r' ∧ b ≠ byte '\n' := by
  have hchars (b : UInt8) : (str " \r\n").contains b = false ↔
      b ≠ byte ' ' ∧ b ≠ byte '\r' ∧ b ≠ byte '\n' := by
    simp [str]
  rw [isListed, Bool.and_eq_true, Bool.not_eq_true', Bool.not_eq_true', List.any_eq_false]
  refine and_congr (by simp) (forall₂_congr fun b _ => ?_)
  rw [Bool.not_eq_true, hchars]

/-- No line break gets on the second line. -/
theorem notMem_opsLine (ops : List Str) : byte '\r' ∉ opsLine ops ∧ byte '\n' ∉ opsLine ops := by
  have hmem {b : UInt8} (hb : b ∈ opsLine ops) : b ≠ byte '\r' ∧ b ≠ byte '\n' := by
    rw [opsLine_eq] at hb
    rcases List.mem_append.mp hb with hops | hname
    · exact forall_of_all (p := fun b => b ≠ byte '\r' ∧ b ≠ byte '\n') (by decide) b hops
    · obtain ⟨c, hc, hbc⟩ := List.mem_flatMap.mp hname
      rcases List.mem_cons.mp hbc with rfl | hbc
      · decide
      · exact ((isListed_iff.mp (List.mem_filter.mp hc).2).2 b hbc).2
  exact ⟨fun hcr => (hmem hcr).1 rfl, fun hlf => (hmem hlf).2 rfl⟩

/-! ### Words of the second line -/

theorem text_flatMap {cs : List Str} (h : ∀ c ∈ cs, Text c) :
    Text (cs.flatMap (byte ' ' :: ·)) := by
  induction cs with
  | nil => exact .nil
  | cons c cs ih =>
      obtain ⟨hc, hcs⟩ := List.forall_mem_cons.mp h
      have hspace : Text [byte ' '] := text_of_ascii (forall_of_all (by decide))
      exact hspace.append (hc.append (ih hcs))

theorem splitWhitespace_flatMap {cs : List Str} (h : ∀ c ∈ cs, Text c) {w : Str} (hw : Text w) :
    splitWhitespace (w ++ cs.flatMap (byte ' ' :: ·)) =
      splitWhitespace w ++ cs.flatMap splitWhitespace := by
  induction cs generalizing w with
  | nil => simp
  | cons c cs ih =>
      obtain ⟨hc, hcs⟩ := List.forall_mem_cons.mp h
      rw [List.flatMap_cons, List.cons_append,
        splitWhitespace_append_cons hw (hc.append (text_flatMap hcs)) (by decide) (by decide),
        ih hcs hc, List.flatMap_cons]

theorem splitWhitespace_opsLine {ops : List Str} (h : ∀ c ∈ ops, Text c) :
    splitWhitespace (opsLine ops) = str "ops" :: (ops.filter isListed).flatMap splitWhitespace := by
  have hops : Text (str "ops") := text_of_ascii (forall_of_all (by decide))
  rw [opsLine_eq, splitWhitespace_flatMap (fun c hc => h c (List.mem_filter.mp hc).1) hops]
  rfl

/-- A name without white space is listed, and is one word. -/
theorem isListed_of_unspaced {c : Str} (hc : Text c) (hne : c ≠ []) (h : Unspaced c) :
    isListed c = true := by
  have hnot {b : UInt8} (hb : b ∈ c) (hlt : b < 0x80) : isWhitespace [b] = false :=
    h [b] (singleton_mem_chars hc hlt hb)
  refine isListed_iff.mpr ⟨hne, fun b hb => ⟨?_, ?_, ?_⟩⟩
  · rintro rfl
    exact absurd (hnot hb (by decide)) (by decide)
  · rintro rfl
    exact absurd (hnot hb (by decide)) (by decide)
  · rintro rfl
    exact absurd (hnot hb (by decide)) (by decide)

/-! ### What is read -/

theorem parseMarker_markerText {id ver variant : Str} {ops : List Str}
    (hid : IsField id ∧ id ≠ []) (hver : IsField ver ∧ ver ≠ [])
    (hvariant : IsField variant ∧ variant.length ≤ 7) (hops : ∀ c ∈ ops, Text c) :
    parseMarker (markerText id ver variant ops) =
      some { id, version := ver, variant, ops := (ops.filter isListed).flatMap splitWhitespace } := by
  obtain ⟨⟨hidPipe, hidCr, hidLf⟩, hidNe⟩ := hid
  obtain ⟨⟨hverPipe, hverCr, hverLf⟩, hverNe⟩ := hver
  obtain ⟨⟨hvarPipe, hvarCr, hvarLf⟩, hvarLen⟩ := hvariant
  have htext : markerText id ver variant ops =
      (id ++ byte '|' :: (ver ++ byte '|' :: variant)) ++ byte '\n' :: (opsLine ops ++ [byte '\n']) := by
    simp [markerText, str]
  have hfirst {b : UInt8} (hid : b ∉ id) (hver : b ∉ ver) (hvariant : b ∉ variant)
      (hpipe : b ≠ byte '|') : b ∉ id ++ byte '|' :: (ver ++ byte '|' :: variant) := by
    simp only [List.mem_append, List.mem_cons, not_or]
    exact ⟨hid, hpipe, hver, hpipe, hvariant⟩
  have hcr := hfirst hidCr hverCr hvarCr (by decide)
  have hlf := hfirst hidLf hverLf hvarLf (by decide)
  obtain ⟨hopsCr, hopsLf⟩ := notMem_opsLine ops
  have hread : opsOf (opsLine ops) = some ((ops.filter isListed).flatMap splitWhitespace) := by
    rw [opsOf, splitWhitespace_opsLine hops]
    rfl
  unfold parseMarker
  rw [htext, lines_two hlf hopsLf, stripCr_eq_self hcr, stripCr_eq_self hopsCr]
  dsimp only
  rw [trimBreaks_eq_self hcr hlf, splitPipes_append hidPipe, splitPipes_append hverPipe,
    splitPipes_of_notMem hvarPipe]
  dsimp only
  rw [if_neg (by simpa [hidNe, hverNe] using hvarLen), List.findSome?_cons, hread]
  rfl

/-- **The marker.** What is read is what was written, exactly when no channel has an empty name or
white space in its name. -/
theorem marker_roundTrip_iff {id ver variant : Str} {ops : List Str}
    (hid : IsField id ∧ id ≠ []) (hver : IsField ver ∧ ver ≠ [])
    (hvariant : IsField variant ∧ variant.length ≤ 7) (hops : ∀ c ∈ ops, Text c) :
    parseMarker (markerText id ver variant ops) = some { id, version := ver, variant, ops } ↔
      ∀ c ∈ ops, c ≠ [] ∧ Unspaced c := by
  rw [parseMarker_markerText hid hver hvariant hops, Option.some.injEq, PendingUpgrade.mk.injEq]
  simp only [true_and]
  constructor
  · intro heq c hc
    rw [← heq] at hc
    obtain ⟨d, hd, hcd⟩ := List.mem_flatMap.mp hc
    exact mem_splitWhitespace (hops d (List.mem_filter.mp hd).1) hcd
  · intro h
    have hlisted : ops.filter isListed = ops :=
      List.filter_eq_self.mpr fun c hc => isListed_of_unspaced (hops c hc) (h c hc).1 (h c hc).2
    have hword : ∀ c ∈ ops, splitWhitespace c = [c] := fun c hc =>
      splitWhitespace_eq_singleton (h c hc).1 (h c hc).2
    rw [hlisted, List.flatMap_congr hword, List.flatMap_singleton']

theorem marker_roundTrip_two :
    parseMarker (markerText (str "u1") (str "2.4.9") (str "rs") [str "#a", str "#B"]) =
      some { id := str "u1", version := str "2.4.9", variant := str "rs", ops := [str "#a", str "#B"] } := by
  have htext : ∀ c ∈ [str "#a", str "#B"], Text c :=
    List.forall_mem_cons.mpr ⟨text_of_ascii (forall_of_all (by decide)),
      List.forall_mem_singleton.mpr (text_of_ascii (forall_of_all (by decide)))⟩
  refine (marker_roundTrip_iff (by decide) (by decide) (by decide) htext).mpr ?_
  exact List.forall_mem_cons.mpr ⟨⟨by decide, unspaced_of_all (by decide)⟩,
    List.forall_mem_singleton.mpr ⟨by decide, unspaced_of_all (by decide)⟩⟩

/-- The name of an IRC channel. -/
structure ChannelName (c : Str) : Prop where
  text : Text c
  ne : c ≠ []
  clean : ∀ b ∈ c, b ∉ str " ,\x00\x07\r\n"

/-- A name with a tab comes back as two. -/
theorem not_marker_roundTrip : ¬ ∀ id ver variant : Str, ∀ ops : List Str, IsField id ∧ id ≠ [] →
    IsField ver ∧ ver ≠ [] → IsField variant ∧ variant.length ≤ 7 → (∀ c ∈ ops, ChannelName c) →
      parseMarker (markerText id ver variant ops) = some { id, version := ver, variant, ops } := by
  intro h
  have hname : ∀ c ∈ [str "#a\tb"], ChannelName c :=
    List.forall_mem_singleton.mpr ⟨text_of_ascii (forall_of_all (by decide)), by decide,
      forall_of_all (by decide)⟩
  have hback := h (str "u1") (str "2.4.9") (str "rs") [str "#a\tb"] (by decide) (by decide) (by decide)
    hname
  have hread : parseMarker (markerText (str "u1") (str "2.4.9") (str "rs") [str "#a\tb"]) =
      some { id := str "u1", version := str "2.4.9", variant := str "rs", ops := [str "#a", str "b"] } := by
    decide +kernel
  rw [hread] at hback
  exact absurd hback (by decide)

end IrcBot.Marker
