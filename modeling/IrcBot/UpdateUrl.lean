/-
# Which URLs an update may be fetched from (`updater.rs`)

`validate_url` looks for the names of the release hosts anywhere in a URL, and for the
configured base at its start.

* `validateUrl_anyHost` — every host has a URL that is accepted, whatever the base.
* `not_acceptsTrusted` — so, whatever the base, not all that is accepted is to be trusted.
* `not_trusted` — a URL of another host that has the name in its path is accepted.
-/
import IrcBot.Cstr
import Mathlib.Data.List.Infix

namespace IrcBot.UpdateUrl

open Cstr

/-! ### The check -/

/-- What `HUB_UPDATE_BASE` holds, where it can be read, and what `IRCBOT_UPDATE_BASE` is set to. -/
structure Bases where
  hub : Option Str := some []
  env : Option Str := none
deriving DecidableEq, Repr

/-- `update_base`. -/
def updateBase (bs : Bases) : Option Str :=
  (bs.hub.filter (· ≠ [])).or (bs.env.filter (· ≠ []))

/-- The characters that no URL may have in it. -/
def urlChars : Str := str ";|&\x60$"

/-- The names that a release host has in its URLs. -/
def releaseHosts : List Str := [str "github.com", str "githubusercontent.com"]

/-- The scheme of HTTPS, with the slashes behind it. -/
def https : Str := str "https://"

/-- `validate_url`. -/
def validateUrl (bs : Bases) (url : Str) : Bool :=
  if url.any urlChars.contains then false
  else if (updateBase bs).any (· <+: url) then true
  else https <+: url && releaseHosts.any (· <:+: url)

/-! ### What is to be trusted -/

/-- What stands between `://` and the next slash. -/
def authority (url : Str) : Str := (url.drop https.length).takeWhile (· ≠ byte '/')

/-- A byte of a label of a host name. -/
def IsLabelByte (b : UInt8) : Prop :=
  (65 ≤ b ∧ b ≤ 90) ∨ (97 ≤ b ∧ b ≤ 122) ∨ isDigit b = true ∨ b = byte '-' ∨ b = byte '_'

def IsLabel (l : Str) : Prop := l ≠ [] ∧ ∀ b ∈ l, IsLabelByte b

/-- Labels with a dot behind each. -/
def dotted (labels : List Str) : Str := labels.flatMap (· ++ [byte '.'])

/-- The host or a subdomain of it. -/
def InDomain (name host : Str) : Prop :=
  ∃ labels, (∀ l ∈ labels, IsLabel l) ∧ name = dotted labels ++ host

/-- An https URL of a release host, or a resource under the configured base. -/
def Trusted (bs : Bases) (url : Str) : Prop :=
  (https <+: url ∧ ∃ host ∈ releaseHosts, InDomain (authority url) host) ∨
    ∃ base ∈ updateBase bs, base ++ [byte '/'] <+: url

/-- What is accepted with these settings is to be trusted. -/
def AcceptsTrusted (bs : Bases) : Prop := ∀ url, validateUrl bs url = true → Trusted bs url

/-! ### What is accepted -/

theorem validateUrl_of_base {bs : Bases} {base url : Str} (hbase : updateBase bs = some base)
    (hclean : ∀ b ∈ url, b ∉ urlChars) (hbegins : base <+: url) : validateUrl bs url = true := by
  unfold validateUrl
  rw [if_neg (by simpa using hclean), hbase, Option.any_some, if_pos (decide_eq_true hbegins)]

/-- The URL of a host that has the name of a release host for its path. -/
def namedPath (name : Str) : Str := https ++ (name ++ str "/github.com")

/-- **Any host has a URL that is accepted**, whatever the base. -/
theorem validateUrl_anyHost (bs : Bases) {name : Str} (hname : ∀ b ∈ name, b ∉ urlChars) :
    validateUrl bs (namedPath name) = true := by
  have hclean : ¬ (namedPath name).any urlChars.contains = true := by
    have hfront : ∀ b ∈ https, b ∉ urlChars := by decide +kernel
    have hback : ∀ b ∈ str "/github.com", b ∉ urlChars := by decide +kernel
    simp only [List.any_eq_true, List.contains_iff_mem, not_exists, not_and]
    intro b hb
    rcases List.mem_append.mp hb with h | h
    · exact hfront b h
    · exact (List.mem_append.mp h).elim (hname b) (hback b)
  have hmentioned : str "github.com" <:+: namedPath name :=
    ⟨https ++ (name ++ [byte '/']), [], by simp [namedPath, str]⟩
  have hhost : releaseHosts.any (fun host => decide (host <:+: namedPath name)) = true :=
    List.any_eq_true.mpr ⟨str "github.com", List.mem_cons_self, decide_eq_true hmentioned⟩
  unfold validateUrl
  rw [if_neg hclean, hhost,
    decide_eq_true (show https <+: namedPath name from List.prefix_append _ _)]
  exact ite_self true

/-! ### What is to be trusted of that -/

/-- What comes before the path of a URL is its authority. -/
theorem authority_append {name rest : Str} (hname : ∀ b ∈ name, b ≠ byte '/') :
    authority (https ++ (name ++ byte '/' :: rest)) = name := by
  unfold authority
  rw [List.drop_left, List.takeWhile_append_of_pos fun b hb => decide_eq_true (hname b hb),
    List.takeWhile_cons_of_neg (by decide), List.append_nil]

/-- A host whose name does not end as one of the release hosts. -/
def Foreign (name : Str) : Prop :=
  (∀ b ∈ name, b ≠ byte '/') ∧ ∀ host ∈ releaseHosts, ¬ host <:+ name

/-- Only the base can make a URL of a foreign host one to be trusted. -/
theorem base_of_trusted {bs : Bases} {name : Str} (hname : Foreign name)
    (h : Trusted bs (namedPath name)) :
    ∃ base ∈ updateBase bs, base ++ [byte '/'] <+: namedPath name := by
  refine h.resolve_left fun ⟨_, host, hhost, labels, _, hdomain⟩ => ?_
  have hauthority : authority (namedPath name) = name := authority_append hname.1
  rw [hauthority] at hdomain
  exact hname.2 host hhost ⟨dotted labels, hdomain.symm⟩

/-- What two lists begin with that differ behind `xs` is no longer than `xs`. -/
theorem prefix_of_differ {α : Type} {l xs ys zs : List α} {y z : α} (hne : y ≠ z)
    (hy : l <+: xs ++ y :: ys) (hz : l <+: xs ++ z :: zs) : l <+: xs := by
  rcases List.prefix_or_prefix_of_prefix hy (List.prefix_append xs (y :: ys)) with h | ⟨rest, rfl⟩
  · exact h
  · rw [List.prefix_append_right_inj] at hy hz
    cases rest with
    | nil => rw [List.append_nil]
    | cons x rest =>
        exact absurd
          ((List.cons_prefix_cons.mp hy).1.symm.trans (List.cons_prefix_cons.mp hz).1) hne

/-- The base is no more than a part of the scheme: then what goes on with another byte than a
slash is accepted, and is not even an https URL. -/
theorem not_trusted_scheme {bs : Bases} {base : Str} (hbase : updateBase bs = some base)
    (hscheme : base ++ [byte '/'] <+: https) : ¬ AcceptsTrusted bs := by
  have hall : ∀ l ∈ https.inits, l.getLast? = some (byte '/') →
      (∀ b ∈ l.dropLast ++ [byte 'x'], b ∉ urlChars) ∧ ¬ https <+: l.dropLast ++ [byte 'x'] ∧
        ¬ l <+: l.dropLast ++ [byte 'x'] := by decide +kernel
  obtain ⟨hclean, hno, hbelow⟩ := hall _ ((List.mem_inits _ _).mpr hscheme) List.getLast?_concat
  rw [List.dropLast_concat] at hclean hno hbelow
  intro h
  rcases h _ (validateUrl_of_base hbase hclean (List.prefix_append _ _)) with
    ⟨hhttps, -⟩ | ⟨base', hmem, hunder⟩
  · exact hno hhttps
  · obtain rfl := Option.some.inj (hbase.symm.trans hmem)
    exact hbelow hunder

def hostA : Str := str "a.example"
def hostB : Str := str "b.example"

theorem foreign_hostA : Foreign hostA := by unfold Foreign; decide +kernel
theorem foreign_hostB : Foreign hostB := by unfold Foreign; decide +kernel

theorem clean_hostA : ∀ b ∈ hostA, b ∉ urlChars := by decide +kernel
theorem clean_hostB : ∀ b ∈ hostB, b ∉ urlChars := by decide +kernel

/-- **No allow-list.** Whatever the base, something is accepted that is not to be trusted: the
URLs of two hosts are accepted, and a base that has both below it is no more than a part of the
scheme. -/
theorem not_acceptsTrusted (bs : Bases) : ¬ AcceptsTrusted bs := by
  intro h
  obtain ⟨base, hbase, ha⟩ :=
    base_of_trusted foreign_hostA (h _ (validateUrl_anyHost bs clean_hostA))
  obtain ⟨base', hbase', hb⟩ :=
    base_of_trusted foreign_hostB (h _ (validateUrl_anyHost bs clean_hostB))
  obtain rfl := Option.some.inj (hbase.symm.trans hbase')
  exact not_trusted_scheme hbase
    (prefix_of_differ (y := byte 'a') (z := byte 'b') (by decide) ha hb) h

/-- A URL of another host, with the name of a release host in its path. -/
def otherHost : Str := str "https://evil.example/github.com/ircbot-9.0.0.tar.gz"

/-- It is accepted with no base configured, and no release host serves it. -/
theorem not_trusted : ¬ ∀ bs url, validateUrl bs url = true → Trusted bs url := by
  intro h
  rcases h {} otherHost (by decide +kernel) with
    ⟨-, host, hhost, labels, -, hname⟩ | ⟨base, hbase, -⟩
  · have hnone : releaseHosts.all fun host => !decide (host <:+ authority otherHost) := by decide
    have hsuffix : host <:+ authority otherHost := ⟨dotted labels, hname.symm⟩
    exact absurd (List.all_eq_true.mp hnone host hhost) (by simp [hsuffix])
  · cases hbase

end IrcBot.UpdateUrl
