/-
# What PREPARE and COMMIT check (`updater.rs`)

The checks of `hub_prepare_check` and `hub_commit` down to the row of the manifest, as the
`Machine` that the messages of an upgrade meet. Both set the release tree, fetch its manifest and
choose a row; PREPARE then looks at how the name of the artifact begins, COMMIT cleans the name
and looks at how it ends too.

* `hubCommit_machine` — COMMIT is its checks, and then the installation.
* `commit_keeps_iff` — a COMMIT passes the checks with the row that its PREPARE was answered
  "ready" for exactly when the cleaned name of the artifact ends as an archive's.
-/
import IrcBot.Manifest
import IrcBot.Upgrade
import IrcBot.UserCommands
import Mathlib.Data.List.DropRight

namespace IrcBot.UpgradeChecks

open Cstr Chancfg Chanenf Config UpdateUrl Manifest Upgrade UserCommands

/-! ### The host and its release trees -/

/-- What the checks find on the host and in the release trees. -/
structure Site where
  /-- With what `IRCBOT_UPDATE_BASE` is set to; the base that the hub names is set by the checks. -/
  host : Host := {}
  exePath : Str := str "/ircbot"
  passFile : Bool := true
  /-- `tls_cpu_missing`. -/
  tlsMissing : Option Str := none
  /-- `HUB_UPDATE_BASE` can be written. -/
  writable : Bool := true
  /-- `fetch_verified_manifest` under a base: the manifest, where its signature is good. -/
  fetch : Option Str → Except Str Str
  /-- Download, hash, self-test and hand-over of an artifact; `ok` where the process is replaced. -/
  finish : ManifestRow → Str → Except Str Unit := fun _ _ => .ok ()

namespace Site

variable (s : Site)

/-- The release tree of a base and a variant. -/
def tree (base want : Str) : Str :=
  (if base.isEmpty then botUpdateBase else base) ++ str "/" ++ want

/-- The host with the updater pointed at a tree. -/
def hostAt (base want : Str) : Host :=
  { s.host with bases := { s.host.bases with hub := some (tree base want) } }

/-- The manifest of a tree. -/
def manifestAt (base want : Str) : Except Str Str := s.fetch (updateBase (s.hostAt base want).bases)

/-- The host, without a look at its release trees. -/
def bare : Machine where
  arch := s.host.arch
  libc := s.host.libc
  exePath := s.exePath
  passFile := s.passFile
  setBase := fun _ => s.writable
  tls := fun base =>
    -- a local tree needs no TLS
    if (str "file://").isPrefixOf base then .ok ()
    else
      match s.tlsMissing with
      | some f =>
          .error (str "this CPU lacks " ++ f ++ str ", which the Rust build's TLS needs " ++ emDash ++
            str " use the C build")
      | none => .ok ()

/-! ### The artifact -/

/-- What stands behind the last slash of a URL. -/
def fileName (url : Str) : Str := url.rtakeWhile (· ≠ byte '/')

/-- The characters that a file name keeps. -/
def isNameChar (c : UInt8) : Bool := isAlnum c || (str "-_.").contains c

/-- A name as `sanitize_filename` cleans it. -/
def cleanName (input : Str) : Str := (input.filter isNameChar).take 255

/-- `sanitize_filename`. -/
def sanitizeFilename (input : Str) : Option Str :=
  if 8 ≤ (cleanName input).length ∧ str ".tar.gz" <:+ cleanName input then some (cleanName input)
  else none

/-- `other_variant_hint`. -/
def otherVariantHint (why targetVer want base : Str) : Str :=
  let other := if want = str "c" then str "rs" else str "c"
  let fits : Except Str ManifestRow := do
    hubSetTree s.bare base other
    let manifest ← s.manifestAt base other
    manifestSelect (s.hostAt base other) manifest targetVer other
  match fits with
  | .ok _ =>
      why ++ str " " ++ emDash ++ str " the " ++ other ++ str " build fits: select this node with =" ++
        other
  | .error _ => why

/-- What `hub_prepare_check` asks of the manifest. -/
def prepareManifest (base targetVer want : Str) : Except Str Unit := do
  let manifest ← s.manifestAt base want
  match manifestSelect (s.hostAt base want) manifest targetVer want with
  | .error why =>
      .error (if (str "this CPU lacks ").isPrefixOf why then s.otherVariantHint why targetVer want base
        else why)
  | .ok row =>
      if (str "ircbot-").isPrefixOf (fileName row.url) then .ok ()
      else .error (str "manifest artifact is not a ircbot release")

/-- What `hub_commit` asks of the manifest: the row, and the name to download it to. -/
def commitManifest (base targetVer want : Str) : Except Str (ManifestRow × Str) := do
  let manifest ← s.manifestAt base want
  let row ← manifestSelect (s.hostAt base want) manifest targetVer want
  let name := fileName row.url
  match sanitizeFilename (if name.isEmpty then str "ircbot.tar.gz" else name) with
  | none => .error (str "artifact filename in manifest is not acceptable")
  | some archive =>
      if (str "ircbot-").isPrefixOf archive then .ok (row, archive)
      else .error (str "manifest artifact is not a ircbot release")

/-- What the messages of an upgrade meet here. -/
def machine : Machine :=
  { s.bare with
    manifest := s.prepareManifest
    install := fun base targetVer want =>
      s.commitManifest base targetVer want >>= fun p => s.finish p.1 p.2 }

/-- The variant that is meant. -/
def wantOf (variant : Str) : Str := if variant.isEmpty then botUpdateVariant else variant

/-- The checks of `hub_commit` up to the download. -/
def commitChecks (targetVer variant base : Str) : Except Str (ManifestRow × Str) := do
  hubLocalCheck s.machine targetVer (wantOf variant) []
  s.machine.tls base
  hubSetTree s.machine base (wantOf variant)
  s.commitManifest base targetVer (wantOf variant)

/-! ### The row on offer -/

/-- What the manifest of a tree offers this host: the first binary that it can use, or else the
last source release. -/
def Offered (base targetVer want : Str) (row : ManifestRow) : Prop :=
  ∃ manifest, s.manifestAt base want = .ok manifest ∧
    best (usableRows (s.hostAt base want) targetVer want (rows manifest)) = some row

/-- The artifact is named as an archive once its name is cleaned. -/
def NamedArchive (row : ManifestRow) : Prop := str ".tar.gz" <:+ cleanName (fileName row.url)

instance (row : ManifestRow) : Decidable (NamedArchive row) :=
  inferInstanceAs (Decidable (str ".tar.gz" <:+ _))

end Site

open Site

variable {s : Site}

theorem manifestSelect_eq_ok {h : Host} {manifest version variant : Str} {row : ManifestRow} :
    manifestSelect h manifest version variant = .ok row ↔
      best (usableRows h version variant (rows manifest)) = some row := by
  rw [manifestSelect_eq]
  cases best (usableRows h version variant (rows manifest)) <;> simp

theorem offered_unique {base targetVer want : Str} {row row' : ManifestRow}
    (h : s.Offered base targetVer want row)
    (h' : s.Offered base targetVer want row') : row = row' := by
  obtain ⟨manifest, hfetch, hbest⟩ := h
  obtain ⟨manifest', hfetch', hbest'⟩ := h'
  cases hfetch.symm.trans hfetch'
  exact Option.some.inj (hbest.symm.trans hbest')

/-! ### The names of an artifact -/

/-- A name that begins as a release does begins so when it is cleaned. -/
theorem cleanName_isPrefix {name : Str} (h : str "ircbot-" <+: name) :
    str "ircbot-" <+: cleanName name := by
  obtain ⟨t, rfl⟩ := h
  have hkept : (str "ircbot-").filter isNameChar = str "ircbot-" := by decide
  rw [cleanName, List.filter_append, hkept, List.take_append, List.take_of_length_le (by decide)]
  exact List.prefix_append _ _

/-- No name is both the beginning of a release and the end of an archive. -/
theorem eight_le_length {name : Str} (hpre : str "ircbot-" <+: name)
    (hsuf : str ".tar.gz" <:+ name) : 8 ≤ name.length := by
  by_contra hlt
  have hseven : (str "ircbot-").length = 7 := rfl
  have hseven' : (str ".tar.gz").length = 7 := rfl
  have hlen := hpre.length_le
  have heq := hpre.eq_of_length_le (by omega)
  have heq' := hsuf.eq_of_length_le (by omega)
  exact absurd (heq.trans heq'.symm) (by decide)

theorem sanitizeFilename_ircbot {name : Str} (h : str "ircbot-" <+: name) :
    sanitizeFilename name =
      if str ".tar.gz" <:+ cleanName name then some (cleanName name) else none := by
  unfold sanitizeFilename
  by_cases hsuf : str ".tar.gz" <:+ cleanName name
  · rw [if_pos hsuf, if_pos ⟨eight_le_length (cleanName_isPrefix h) hsuf, hsuf⟩]
  · rw [if_neg hsuf, if_neg fun hboth => hsuf hboth.2]

/-! ### The two sequences of checks -/

/-- COMMIT is its checks, and then the installation. -/
theorem hubCommit_machine (s : Site) (targetVer variant base : Str) :
    hubCommit s.machine targetVer variant base =
      s.commitChecks targetVer variant base >>= fun p => s.finish p.1 p.2 := by
  simp only [hubCommit, commitChecks, bind_assoc]
  rfl

/-- What passes with a floor for the running version passes without one. -/
theorem hubLocalCheck_nil {m : Machine} {targetVer want minFrom : Str}
    (h : hubLocalCheck m targetVer want minFrom = .ok ()) :
    hubLocalCheck m targetVer want [] = .ok () := by
  unfold hubLocalCheck at h ⊢
  split at h
  · cases h
  · rename_i hvariant
    rw [if_neg hvariant]
    split at h
    · cases h
    · rename_i hlt
      rw [if_neg hlt]
      split at h
      · cases h
      · rename_i heq
        rw [if_neg heq, if_neg fun hno => hno.1 rfl]
        split at h
        · cases h
        · exact h

theorem prepareManifest_eq_ok {base targetVer want : Str} :
    s.prepareManifest base targetVer want = .ok () ↔
      ∃ row, s.Offered base targetVer want row ∧ str "ircbot-" <+: fileName row.url := by
  unfold prepareManifest
  rw [bind_eq_ok]
  constructor
  · rintro ⟨manifest, hfetch, h⟩
    split at h
    · cases h
    · rename_i row hselect
      split at h
      · rename_i hname
        exact ⟨row, ⟨manifest, hfetch, manifestSelect_eq_ok.mp hselect⟩,
          List.isPrefixOf_iff_prefix.mp hname⟩
      · cases h
  · rintro ⟨row, ⟨manifest, hfetch, hbest⟩, hname⟩
    refine ⟨manifest, hfetch, ?_⟩
    rw [manifestSelect_eq_ok.mpr hbest]
    exact if_pos (List.isPrefixOf_iff_prefix.mpr hname)

/-- The end of the name is all that COMMIT can still stumble over. -/
theorem commitManifest_eq_ok {base targetVer want : Str} {row : ManifestRow}
    (hoffered : s.Offered base targetVer want row) (hname : str "ircbot-" <+: fileName row.url)
    {p : ManifestRow × Str} :
    s.commitManifest base targetVer want = .ok p ↔
      p = (row, cleanName (fileName row.url)) ∧ NamedArchive row := by
  obtain ⟨manifest, hfetch, hbest⟩ := hoffered
  have hne : (fileName row.url).isEmpty = false := by
    obtain ⟨t, ht⟩ := hname
    rw [← ht]
    rfl
  have hpre : (str "ircbot-").isPrefixOf (cleanName (fileName row.url)) = true :=
    List.isPrefixOf_iff_prefix.mpr (cleanName_isPrefix hname)
  have hselect := manifestSelect_eq_ok.mpr hbest
  unfold commitManifest
  simp only [hfetch, hselect, bind, Except.bind]
  rw [if_neg (by simp [hne]), sanitizeFilename_ircbot hname]
  by_cases harchive : str ".tar.gz" <:+ cleanName (fileName row.url)
  · rw [if_pos harchive]
    dsimp only
    rw [if_pos hpre, Except.ok.injEq]
    exact ⟨fun h => ⟨h.symm, harchive⟩, fun h => h.1.symm⟩
  · rw [if_neg harchive]
    exact iff_of_false (fun h => by cases h) fun h => harchive h.2

/-! ### What a ready answer promises -/

/-- A COMMIT passes all its checks up to the download, with the row on offer. -/
def Keeps (s : Site) (targetVer variant base : Str) : Prop :=
  ∃ row archive, s.Offered base targetVer (wantOf variant) row ∧
    s.commitChecks targetVer variant base = .ok (row, archive)

/-- **The promise of PREPARE.** After it was answered "ready", a COMMIT for the same build passes
its checks with the same row exactly when the row's artifact is named as an archive. -/
theorem commit_keeps_iff {s : Site} {targetVer variant minFrom base : Str}
    (hready : hubPrepareCheck s.machine targetVer variant minFrom base = .ok ()) :
    Keeps s targetVer variant base ↔
      ∀ row, s.Offered base targetVer (wantOf variant) row → NamedArchive row := by
  have hprepare : hubPrepareCheck s.machine targetVer variant minFrom base = (do
      hubLocalCheck s.machine targetVer (wantOf variant) minFrom
      s.machine.tls base
      hubSetTree s.machine base (wantOf variant)
      s.prepareManifest base targetVer (wantOf variant)) := rfl
  rw [hprepare] at hready
  obtain ⟨⟨⟩, hlocal, hready⟩ := bind_eq_ok.mp hready
  obtain ⟨⟨⟩, htls, hready⟩ := bind_eq_ok.mp hready
  obtain ⟨⟨⟩, htree, hready⟩ := bind_eq_ok.mp hready
  obtain ⟨row, hoffered, hname⟩ := prepareManifest_eq_ok.mp hready
  have hchecks : s.commitChecks targetVer variant base =
      s.commitManifest base targetVer (wantOf variant) := by
    unfold commitChecks
    rw [hubLocalCheck_nil hlocal, htls, htree]
    rfl
  unfold Keeps
  rw [hchecks]
  constructor
  · rintro ⟨row', archive, hoffered', hcommit⟩ other hother
    rw [offered_unique hother hoffered]
    exact ((commitManifest_eq_ok hoffered hname).mp hcommit).2
  · intro harchive
    exact ⟨row, _, hoffered, (commitManifest_eq_ok hoffered hname).mpr ⟨rfl, harchive row hoffered⟩⟩

/-- A site with one source release. -/
def oneRelease (name : String) : Site where
  fetch := fun _ =>
    .ok (str "v9.0.0 2026-09-20 https://github.com/x/y/" ++ str name ++ str " aa none src any any *\n")

theorem commit_keeps_archive : Keeps (oneRelease "ircbot-9.0.0.tar.gz") (str "9.0.0") [] [] := by
  have hready : hubPrepareCheck (oneRelease "ircbot-9.0.0.tar.gz").machine (str "9.0.0") []
      (str "2.0.0") [] = .ok () := by
    decide +kernel
  have hnamed (manifest : Str) (hfetch : (oneRelease "ircbot-9.0.0.tar.gz").fetch none = .ok manifest) :
      (best (usableRows ((oneRelease "ircbot-9.0.0.tar.gz").hostAt [] botUpdateVariant) (str "9.0.0")
        botUpdateVariant (rows manifest))).all fun row => decide (NamedArchive row) := by
    cases hfetch
    decide +kernel
  refine (commit_keeps_iff hready).mpr ?_
  rintro row ⟨manifest, hfetch, hbest⟩
  exact of_decide_eq_true ((Option.all_eq_true _ _).mp (hnamed manifest hfetch) row hbest)

/-- A release packed in another way is answered "ready" and then refused. -/
theorem not_keeps : ¬ ∀ (s : Site) (targetVer variant minFrom base : Str),
    hubPrepareCheck s.machine targetVer variant minFrom base = .ok () →
      Keeps s targetVer variant base := by
  intro h
  obtain ⟨row, archive, -, hcommit⟩ := h (oneRelease "ircbot-9.0.0.tgz") (str "9.0.0") [] [] []
    (by decide +kernel)
  have hrefused : (oneRelease "ircbot-9.0.0.tgz").commitChecks (str "9.0.0") [] [] =
      .error (str "artifact filename in manifest is not acceptable") := by
    decide +kernel
  cases hrefused.symm.trans hcommit

end IrcBot.UpgradeChecks
