/-
# Whom an allowed ban can hit

A ban mask that passes `ban_allowed_why` without a channel is meant to hit
nobody authorised, in the channel or not. The overlap test drops a leading `~`
of the ident on both sides, as the lookup of a trusted bot does. The two do not
agree everywhere: `?` in one mask can stand for the `~` that the other side has
dropped, and user masks are matched with their `~` in place.

* `takesTilde_iff` — where a mask takes a `~` behind the nick, read off the masks.
* `banSparesAuthorised_of_tildesApart` — an allowed ban spares everybody
  authorised where no mask takes a `~` that the other side has dropped.
* `not_banSparesAuthorised` — a `?` in the ban takes the `~` of a trusted bot.
-/
import IrcBot.Chanenf

namespace IrcBot.BanSafety

open Cstr Masks Auth Chanenf Lib.Glob

/-! ### The property -/

/-- A nick!user@host string the bot handles whole. -/
def IsHostmask (nuh : Str) : Prop :=
  nuh.length < maxMaskLen ∧ ∃ nick user host, nuh = nick ++ byte '!' :: (user ++ byte '@' :: host) ∧
    nick ≠ [] ∧ byte '!' ∉ nick ∧ user ≠ [] ∧ byte '@' ∉ user ∧ host ≠ []

/-- If `mask` is allowed without a channel, it matches nobody authorised. -/
def BanSparesAuthorised (b : BotState) (mask : Str) : Prop :=
  banAllowedWhy b none mask = .ok () →
    ∀ nuh, IsHostmask nuh → isAuthorised b nuh = true → wildcardMatch mask nuh = false

/-- No mask of a bot or of an active user overlaps `mask` once both have lost the
`~` of their ident. -/
structure DisjointStripped (b : BotState) (mask : Str) : Prop where
  bots : ∀ tb ∈ b.trustedBots,
    globOverlap (stripIdentTilde mask) (stripIdentTilde tb.mask) = false
  users : ∀ mr ∈ b.maskRecords, Authorises b mr →
    globOverlap (stripIdentTilde mask) (stripIdentTilde mr.mask) = false

theorem IsHostmask.ne_nil {nuh : Str} (h : IsHostmask nuh) : nuh ≠ [] := by
  obtain ⟨-, nick, user, host, rfl, -⟩ := h
  simp

theorem banAllowedWhy_eq_ok_iff_disjoint {b : BotState} {mask : Str} :
    banAllowedWhy b none mask = .ok () ↔
      safeToken mask banMaskMax = true ∧ DisjointStripped b mask := by
  rw [banAllowedWhy_none_eq_ok_iff, maskOverlapsAuthorised_eq_none_iff]
  exact and_congr_right fun _ => ⟨fun h => ⟨h.1, h.2⟩, fun h => ⟨h.bots, h.users⟩⟩

/-! ### Which byte of a mask takes a byte of a text -/

/-- The byte at `i` can stand for `c`. -/
def standsFor (p : Str) (i : Nat) (c : UInt8) : Bool :=
  match p[i]? with
  | some s => s == byte '*' || s == byte '?' || lower s == lower c
  | none => false

/-- What is ahead of the byte that stands at `i`. A star goes on to both sides. -/
def ahead (p : Str) (i : Nat) : Str := if p[i]? = some (byte '*') then p.take (i + 1) else p.take i

def behind (p : Str) (i : Nat) : Str := if p[i]? = some (byte '*') then p.drop i else p.drop (i + 1)

theorem wildcardMatch_append_iff {p q t : Str} :
    wildcardMatch (p ++ q) t = true ↔
      ∃ s u, t = s ++ u ∧ wildcardMatch p s = true ∧ wildcardMatch q u = true := by
  simp only [wildcardMatch_iff, syms_append, matches_append_iff]
  constructor
  · rintro ⟨s, u, ht, hs, hu⟩
    obtain ⟨s, u, rfl, rfl, rfl⟩ := List.map_eq_append_iff.mp ht
    exact ⟨s, u, rfl, hs, hu⟩
  · rintro ⟨s, u, rfl, hs, hu⟩
    exact ⟨fold s, fold u, fold_append s u, hs, hu⟩

/-- **Where a mask matches, some byte of it takes a given byte of the text**, and only there. -/
theorem wildcardMatch_split_iff {p w y : Str} {c : UInt8} :
    wildcardMatch p (w ++ c :: y) = true ↔ ∃ i, standsFor p i c = true ∧
      wildcardMatch (ahead p i) w = true ∧ wildcardMatch (behind p i) y = true := by
  simp only [wildcardMatch_iff]
  constructor
  · intro h
    rw [fold_append, fold_cons] at h
    obtain ⟨a, x, r, hp, hcut⟩ := h.split
    obtain ⟨a, xr, rfl, rfl, hxr⟩ := List.map_eq_append_iff.mp hp
    obtain ⟨x, r, rfl, rfl, rfl⟩ := List.map_eq_cons_iff.mp hxr
    have hget : (a ++ x :: r)[a.length]? = some x := by simp
    have htake : (a ++ x :: r).take (a.length + 1) = a ++ [x] := by
      rw [List.append_cons, List.take_left' (by simp)]
    have hdrop : (a ++ x :: r).drop (a.length + 1) = r := by
      rw [List.append_cons, List.drop_left' (by simp)]
    by_cases hx : x = byte '*'
    · subst hx
      obtain ⟨-, ha, hr⟩ := hcut.resolve_right fun h => h.1
      refine ⟨a.length, by simp [standsFor], ?_, ?_⟩
      · rw [ahead, if_pos hget, htake, syms_append]
        exact ha
      · rw [behind, if_pos hget, List.drop_left]
        exact hr
    · obtain ⟨hc, ha, hr⟩ := hcut.resolve_left fun h => hx (sym_eq_star_iff.mp h.1)
      refine ⟨a.length, ?_, ?_, ?_⟩
      · rw [standsFor, hget]
        rcases (sym_accepts_iff hx).mp hc with hany | hlower
        · simp [hany]
        · simp [hlower]
      · rw [ahead, if_neg (by rw [hget]; simpa using hx), List.take_left]
        exact ha
      · rw [behind, if_neg (by rw [hget]; simpa using hx), hdrop]
        exact hr
  · rintro ⟨i, hstands, ha, hr⟩
    unfold standsFor at hstands
    cases hget : p[i]? with
    | none => rw [hget] at hstands; cases hstands
    | some x =>
        rw [hget] at hstands
        obtain ⟨hi, rfl⟩ := List.getElem?_eq_some_iff.mp hget
        have hsyms : syms p = syms (p.take i) ++ sym p[i] :: syms (p.drop (i + 1)) := by
          rw [← syms_cons, ← syms_append, List.cons_getElem_drop_succ, List.take_append_drop]
        rw [hsyms, fold_append, fold_cons]
        by_cases hx : p[i] = byte '*'
        · rw [ahead, if_pos (by rw [hget, hx]), ← List.take_append_getElem hi,
            syms_append, hx] at ha
          rw [behind, if_pos (by rw [hget, hx]), ← List.cons_getElem_drop_succ (h := hi), hx] at hr
          rw [hx]
          exact Matches.around_star [lower c] ha hr
        · have hne : p[i]? ≠ some (byte '*') := by rw [hget]; simpa using hx
          rw [ahead, if_neg hne] at ha
          rw [behind, if_neg hne] at hr
          refine ha.append (.one ((sym_accepts_iff hx).mpr ?_) hr)
          simpa [hx] using hstands

/-! ### Masks that take a dropped tilde -/

/-- What a mask asks of the nick, where its ident starts with a `~`. -/
def nickPart (p : Str) : Str := p.takeWhile (· ≠ byte '!')

/-- What it asks behind the `~`. -/
def identPart (p : Str) : Str := (p.dropWhile (· ≠ byte '!')).drop 2

/-- The mask takes some nick!~user whose nick matches `n` and whose user matches `u`. -/
def takesTilde (p n u : Str) : Bool :=
  (List.range p.length).any fun i => standsFor p i (byte '~') &&
    globOverlap (ahead p i) (n ++ [byte '!']) && globOverlap (behind p i) u

/-- How a mask falls apart around the first `!` of a text. -/
def cuts (p : Str) : List (Str × Str) :=
  ((List.range p.length).filter fun i =>
    standsFor p i (byte '!') && !(ahead p i).contains (byte '!')).map fun i => (ahead p i, behind p i)

/-- The `!~` of the mask `p` stands behind a later `!` of some nick!user that `q` takes as well. -/
def takesLater (p q : Str) : Bool :=
  hasIdentTilde p && (List.range q.length).any fun i => standsFor q i (byte '!') &&
    globOverlap (behind q i) (byte '~' :: identPart p) &&
      (cuts (nickPart p)).any fun c => (cuts (ahead q i)).any fun d =>
        globOverlap d.1 c.1 && globOverlap d.2 c.2

/-- No mask takes a `~` that the other side has dropped. Bot masks are compared without the `~` of
the ident, on a hostmask without it; user masks as they stand. -/
structure TildesApart (b : BotState) (mask : Str) : Prop where
  bots : ∀ tb ∈ b.trustedBots,
    (∀ c ∈ cuts (stripIdentTilde tb.mask), takesTilde mask c.1 c.2 = false) ∧
      takesLater mask (stripIdentTilde tb.mask) = false
  banTilde : hasIdentTilde mask = true → ∀ mr ∈ b.maskRecords, Authorises b mr →
    takesTilde mr.mask (nickPart mask) (identPart mask) = false ∧ takesLater mask mr.mask = false
  userTilde : hasIdentTilde mask = false → ∀ mr ∈ b.maskRecords, Authorises b mr →
    hasIdentTilde mr.mask = true →
      takesTilde mask (nickPart mr.mask) (identPart mr.mask) = false ∧
        takesLater mr.mask mask = false

theorem standsFor_lt {p : Str} {i : Nat} {c : UInt8} (h : standsFor p i c = true) :
    i < p.length := by
  by_contra hi
  rw [standsFor, List.getElem?_eq_none (by omega)] at h
  cases h

theorem length_ahead_le (p : Str) (i : Nat) : (ahead p i).length ≤ p.length := by
  unfold ahead
  split <;> (rw [List.length_take]; omega)

theorem length_behind_le (p : Str) (i : Nat) : (behind p i).length ≤ p.length := by
  unfold behind
  split <;> (rw [List.length_drop]; omega)

theorem exists_of_overlap {a b : Str} (ha : a.length ≤ globOverlapMax)
    (hb : b.length ≤ globOverlapMax) (h : globOverlap a b = true) :
    ∃ s, wildcardMatch a s = true ∧ wildcardMatch b s = true := by
  rwa [globOverlap_iff ha hb, overlaps_syms_iff] at h

theorem lower_eq_iff {c d : UInt8} (hd : d = byte '!' ∨ d = byte '~') :
    lower d = lower c ↔ d = c := by
  rcases hd with rfl | rfl
  · change lower 33 = lower c ↔ 33 = c
    unfold lower
    grind
  · change lower 126 = lower c ↔ 126 = c
    unfold lower
    grind

/-- A `!` or a `~` of a mask takes itself. -/
theorem wildcardMatch_mark_iff {d : UInt8} (hd : d = byte '!' ∨ d = byte '~') {p t : Str} :
    wildcardMatch (d :: p) t = true ↔ ∃ u, t = d :: u ∧ wildcardMatch p u = true := by
  have hstar : d ≠ byte '*' := by rcases hd with rfl | rfl <;> decide
  have hany : d ≠ byte '?' := by rcases hd with rfl | rfl <;> decide
  simp only [wildcardMatch_iff, syms_cons]
  rw [matches_cons_iff (mt sym_eq_star_iff.mp hstar)]
  constructor
  · rintro ⟨a, u, ht, ha, hu⟩
    obtain ⟨c, t, rfl, rfl, rfl⟩ := List.map_eq_cons_iff.mp ht
    have hc := ((sym_accepts_iff hstar).mp ha).resolve_left hany
    exact ⟨t, by rw [(lower_eq_iff hd).mp hc], hu⟩
  · rintro ⟨u, rfl, hu⟩
    exact ⟨lower d, fold u, rfl, (sym_accepts_iff hstar).mpr (.inr rfl), hu⟩

/-- A `!` of a mask stands for one of the text. -/
theorem bang_mem_of_match {p t : Str} (h : wildcardMatch p t = true) (hp : byte '!' ∈ p) :
    byte '!' ∈ t := by
  obtain ⟨a, r, rfl⟩ := List.append_of_mem hp
  obtain ⟨s, u, rfl, -, hu⟩ := wildcardMatch_append_iff.mp h
  obtain ⟨u, rfl, -⟩ := (wildcardMatch_mark_iff (.inl rfl)).mp hu
  simp

/-- A mask whose ident starts with a `~`. -/
theorem eq_of_hasIdentTilde {p : Str} (h : hasIdentTilde p = true) :
    p = nickPart p ++ byte '!' :: byte '~' :: identPart p ∧
      stripIdentTilde p = nickPart p ++ byte '!' :: identPart p := by
  obtain ⟨bang, rest, hdrop⟩ : ∃ bang rest,
    p.dropWhile (· ≠ byte '!') = bang :: byte '~' :: rest := by
    unfold hasIdentTilde at h
    cases hdrop : p.dropWhile (· ≠ byte '!') with
    | nil => rw [hdrop] at h; cases h
    | cons bang rest =>
        rw [hdrop] at h
        obtain ⟨rest, rfl⟩ : ∃ r, rest = byte '~' :: r := by
          cases rest with
          | nil => cases h
          | cons tilde rest => exact ⟨rest, by rw [show tilde = byte '~' by simpa using h]⟩
        exact ⟨bang, rest, rfl⟩
  have hbang := List.head?_dropWhile_not (· ≠ byte '!') p
  rw [hdrop] at hbang
  obtain rfl : bang = byte '!' := by simpa using hbang
  constructor
  · conv_lhs => rw [← List.takeWhile_append_dropWhile (p := (· ≠ byte '!')) (l := p), hdrop]
    rw [nickPart, identPart, hdrop]
    rfl
  · rw [stripIdentTilde, identPart, nickPart, hdrop]
    rfl

theorem dropWhile_nick {x : Str} (hx : byte '!' ∉ x) (y : Str) :
    (x ++ byte '!' :: y).dropWhile (· ≠ byte '!') = byte '!' :: y := by
  rw [List.dropWhile_append_of_pos fun c hc => by
    simp only [ne_eq, decide_not, Bool.not_eq_true', decide_eq_false_iff_not]
    rintro rfl
    exact hx hc]
  simp

theorem hasIdentTilde_of_nick {x : Str} (hx : byte '!' ∉ x) (y : Str) :
    hasIdentTilde (x ++ byte '!' :: byte '~' :: y) = true := by
  rw [hasIdentTilde, dropWhile_nick hx]
  rfl

theorem exists_user_of_hasIdentTilde {x y : Str} (hx : byte '!' ∉ x)
    (h : hasIdentTilde (x ++ byte '!' :: y) = true) :
    ∃ z, x ++ byte '!' :: y = x ++ byte '!' :: byte '~' :: z := by
  rw [hasIdentTilde, dropWhile_nick hx] at h
  cases y with
  | nil => cases h
  | cons tilde z => exact ⟨z, by rw [show tilde = byte '~' by simpa using h]⟩

theorem stripIdentTilde_of_nick {x : Str} (hx : byte '!' ∉ x) (y : Str) :
    stripIdentTilde (x ++ byte '!' :: byte '~' :: y) = x ++ byte '!' :: y := by
  obtain ⟨heq, hstrip⟩ := eq_of_hasIdentTilde (hasIdentTilde_of_nick hx y)
  have hident : identPart (x ++ byte '!' :: byte '~' :: y) = y := by
    rw [identPart, dropWhile_nick hx]
    rfl
  rw [hident] at heq hstrip
  rw [hstrip, ← List.append_cancel_right heq]

/-- A mask takes the `~` of a text it matches. -/
theorem takesTilde_of_match {p n u x y : Str}
    (hp : wildcardMatch p (x ++ byte '!' :: byte '~' :: y) = true) (hn : wildcardMatch n x = true)
    (hu : wildcardMatch u y = true) : takesTilde p n u = true := by
  rw [List.append_cons] at hp
  obtain ⟨i, hstands, ha, hr⟩ := wildcardMatch_split_iff.mp hp
  have hnick : wildcardMatch (n ++ [byte '!']) (x ++ [byte '!']) = true :=
    wildcardMatch_append_iff.mpr ⟨x, [byte '!'], rfl, hn, by decide⟩
  refine List.any_eq_true.mpr ⟨i, List.mem_range.mpr (standsFor_lt hstands), ?_⟩
  rw [hstands, globOverlap_of_common ha hnick, globOverlap_of_common hr hu]
  rfl

/-- **Where a mask takes a `~` behind the nick**: exactly on such a text, within the bound of
the overlap test. -/
theorem takesTilde_iff {p n u : Str} (hp : p.length ≤ globOverlapMax)
    (hn : n.length < globOverlapMax) (hu : u.length ≤ globOverlapMax) :
    takesTilde p n u = true ↔ ∃ x y, wildcardMatch p (x ++ byte '!' :: byte '~' :: y) = true ∧
      wildcardMatch n x = true ∧ wildcardMatch u y = true := by
  constructor
  · intro h
    obtain ⟨i, -, hi⟩ := List.any_eq_true.mp h
    simp only [Bool.and_eq_true] at hi
    obtain ⟨⟨hstands, hnick⟩, huser⟩ := hi
    obtain ⟨s, ha, hs⟩ :=
      exists_of_overlap ((length_ahead_le p i).trans hp) (by simpa using hn) hnick
    obtain ⟨y, hr, hy⟩ := exists_of_overlap ((length_behind_le p i).trans hp) hu huser
    obtain ⟨x, bang, rfl, hx, hbang⟩ := wildcardMatch_append_iff.mp hs
    obtain ⟨rest, rfl, hrest⟩ := (wildcardMatch_mark_iff (.inl rfl)).mp hbang
    obtain rfl : rest = [] := by simpa [wildcardMatch_iff, matches_nil_iff, fold] using hrest
    refine ⟨x, y, ?_, hx, hy⟩
    rw [List.append_cons]
    exact wildcardMatch_split_iff.mpr ⟨i, hstands, ha, hr⟩
  · rintro ⟨x, y, hmask, hx, hy⟩
    exact takesTilde_of_match hmask hx hy

/-- A mask that matches a nick!user falls apart around its first `!`. -/
theorem exists_cut {p x y : Str} (hx : byte '!' ∉ x)
    (h : wildcardMatch p (x ++ byte '!' :: y) = true) :
    ∃ c ∈ cuts p, wildcardMatch c.1 x = true ∧ wildcardMatch c.2 y = true := by
  obtain ⟨i, hstands, ha, hr⟩ := wildcardMatch_split_iff.mp h
  refine ⟨(ahead p i, behind p i), List.mem_map_of_mem (List.mem_filter.mpr ⟨?_, ?_⟩), ha, hr⟩
  · exact List.mem_range.mpr (standsFor_lt hstands)
  · have hbang : byte '!' ∉ ahead p i := fun hmem => hx (bang_mem_of_match ha hmem)
    simpa [hstands] using hbang

theorem of_mem_cuts {p : Str} {c : Str × Str} (h : c ∈ cuts p) :
    c.1.length ≤ p.length ∧ c.2.length ≤ p.length ∧ ∀ {x z : Str}, wildcardMatch c.1 x = true →
      wildcardMatch c.2 z = true → wildcardMatch p (x ++ byte '!' :: z) = true := by
  obtain ⟨i, hi, rfl⟩ := List.mem_map.mp h
  have hstands := (List.mem_filter.mp hi).2
  rw [Bool.and_eq_true] at hstands
  exact ⟨length_ahead_le p i, length_behind_le p i,
    fun hx hz => wildcardMatch_split_iff.mpr ⟨i, hstands.1, hx, hz⟩⟩

theorem takesLater_of_match {p q x y z : Str} (hp : hasIdentTilde p = true) (hx : byte '!' ∉ x)
    (hnick : wildcardMatch (nickPart p) (x ++ byte '!' :: z) = true)
    (hident : wildcardMatch (identPart p) y = true)
    (hq : wildcardMatch q ((x ++ byte '!' :: z) ++ byte '!' :: byte '~' :: y) = true) :
    takesLater p q = true := by
  obtain ⟨i, hstands, ha, hr⟩ := wildcardMatch_split_iff.mp hq
  obtain ⟨c, hc, hcx, hcz⟩ := exists_cut hx hnick
  obtain ⟨d, hd, hdx, hdz⟩ := exists_cut hx ha
  have htilde := (wildcardMatch_mark_iff (p := identPart p) (.inr rfl)).mpr ⟨y, rfl, hident⟩
  rw [takesLater, hp, Bool.true_and]
  refine List.any_eq_true.mpr ⟨i, List.mem_range.mpr (standsFor_lt hstands), ?_⟩
  rw [hstands, globOverlap_of_common hr htilde]
  refine List.any_eq_true.mpr ⟨c, hc, List.any_eq_true.mpr ⟨d, hd, ?_⟩⟩
  rw [globOverlap_of_common hdx hcx, globOverlap_of_common hdz hcz]
  rfl

/-- **Where a later `!` comes in**: exactly on a text that has one ahead of the `!~` of the mask,
within the bound of the overlap test. -/
theorem takesLater_iff {p q : Str} (hp : p.length ≤ globOverlapMax)
    (hq : q.length ≤ globOverlapMax) :
    takesLater p q = true ↔ hasIdentTilde p = true ∧ ∃ w y, byte '!' ∈ w ∧
      wildcardMatch (nickPart p) w = true ∧ wildcardMatch (identPart p) y = true ∧
        wildcardMatch q (w ++ byte '!' :: byte '~' :: y) = true := by
  constructor
  · intro h
    rw [takesLater, Bool.and_eq_true] at h
    obtain ⟨htilde, hany⟩ := h
    obtain ⟨i, -, hi⟩ := List.any_eq_true.mp hany
    simp only [Bool.and_eq_true, List.any_eq_true] at hi
    obtain ⟨⟨hstands, hrest⟩, c, hc, d, hd, hnick, huser⟩ := hi
    have hsplit := congrArg List.length (eq_of_hasIdentTilde htilde).1
    simp only [List.length_append, List.length_cons] at hsplit
    obtain ⟨hcnick, hcuser, hcmatch⟩ := of_mem_cuts hc
    obtain ⟨hdnick, hduser, hdmatch⟩ := of_mem_cuts hd
    have hahead := length_ahead_le q i
    have hbehind := length_behind_le q i
    obtain ⟨x, hdx, hcx⟩ := exists_of_overlap (by omega) (by omega) hnick
    obtain ⟨z, hdz, hcz⟩ := exists_of_overlap (by omega) (by omega) huser
    obtain ⟨t, hr, ht⟩ := exists_of_overlap (by omega) (by rw [List.length_cons]; omega) hrest
    obtain ⟨y, rfl, hy⟩ := (wildcardMatch_mark_iff (.inr rfl)).mp ht
    refine ⟨htilde, x ++ byte '!' :: z, y, by simp, hcmatch hcx hcz, hy, ?_⟩
    exact wildcardMatch_split_iff.mpr ⟨i, hstands, hdmatch hdx hdz, hr⟩
  · rintro ⟨htilde, w, y, hbang, hnick, hident, hmatch⟩
    obtain ⟨x, z, rfl, hx⟩ := List.eq_append_cons_of_mem hbang
    exact takesLater_of_match htilde hx hnick hident hmatch

/-- What two masks have in common, where the ident of one starts with a `~`: that `~` stands
behind the nick, or behind a later `!`. -/
theorem takes_of_common {p q x y : Str} (hp : hasIdentTilde p = true)
    (hx : byte '!' ∉ x) (hit : wildcardMatch p (x ++ byte '!' :: y) = true)
    (hit' : wildcardMatch q (x ++ byte '!' :: y) = true) :
    (takesTilde q (nickPart p) (identPart p) = true ∧ hasIdentTilde (x ++ byte '!' :: y) = true) ∨
      takesLater p q = true := by
  rw [(eq_of_hasIdentTilde hp).1] at hit
  obtain ⟨s, u, hsplit, hs, hu⟩ := wildcardMatch_append_iff.mp hit
  obtain ⟨v, rfl, hv⟩ := (wildcardMatch_mark_iff (.inl rfl)).mp hu
  obtain ⟨t, rfl, ht⟩ := (wildcardMatch_mark_iff (.inr rfl)).mp hv
  have hnick (hxs : x = s) (hyt : y = byte '~' :: t) :
      takesTilde q (nickPart p) (identPart p) = true ∧
        hasIdentTilde (x ++ byte '!' :: y) = true := by
    subst hxs hyt
    exact ⟨takesTilde_of_match hit' hs ht, hasIdentTilde_of_nick hx t⟩
  rcases List.append_eq_append_iff.mp hsplit with ⟨z, rfl, hz⟩ | ⟨z, rfl, hz⟩
  · cases z with
    | nil => exact .inl (hnick (List.append_nil x).symm (List.cons.inj hz).2)
    | cons c z =>
        obtain ⟨rfl, rfl⟩ := List.cons.inj hz
        rw [hsplit] at hit'
        exact .inr (takesLater_of_match hp hx hs ht hit')
  · cases z with
    | nil => exact .inl (hnick (List.append_nil s) (List.cons.inj hz).2.symm)
    | cons c z =>
        obtain ⟨rfl, -⟩ := List.cons.inj hz
        exact absurd (by simp) hx

/-- Masks of which neither takes a `~` that the other asks for have no nick!user in common. -/
theorem not_common_of_apart {p q x y : Str} (hp : hasIdentTilde p = true) (hx : byte '!' ∉ x)
    (hnick : hasIdentTilde (x ++ byte '!' :: y) = false ∨
      takesTilde q (nickPart p) (identPart p) = false)
    (hlater : takesLater p q = false) (hit : wildcardMatch p (x ++ byte '!' :: y) = true) :
    ¬ wildcardMatch q (x ++ byte '!' :: y) = true := by
  intro hit'
  rcases takes_of_common hp hx hit hit' with ⟨htakes, htilde⟩ | htakes
  · rcases hnick with hnone | hnone
    · exact Bool.false_ne_true (hnone.symm.trans htilde)
    · exact Bool.false_ne_true (hnone.symm.trans htakes)
  · exact Bool.false_ne_true (hlater.symm.trans htakes)

/-- The ban misses a trusted bot, whose nuh is looked up without its `~`. -/
theorem TildesApart.misses_bot {b : BotState} {mask : Str} (h : TildesApart b mask)
    (hdis : DisjointStripped b mask) {tb : TrustedBot} (htb : tb ∈ b.trustedBots) {x y : Str}
    (hx : byte '!' ∉ x) (hbot : wildcardMatch (stripIdentTilde tb.mask)
      (stripIdentTilde (x ++ byte '!' :: y)) = true) :
    ¬ wildcardMatch mask (x ++ byte '!' :: y) = true := by
  intro hit
  obtain ⟨hcuts, hlater⟩ := h.bots tb htb
  cases hnuh : hasIdentTilde (x ++ byte '!' :: y) with
  | true =>
      -- the lookup drops the `~`, the ban takes it
      obtain ⟨z, hz⟩ := exists_user_of_hasIdentTilde hx hnuh
      rw [hz] at hit hbot
      rw [stripIdentTilde_of_nick hx] at hbot
      obtain ⟨c, hc, hcx, hcz⟩ := exists_cut hx hbot
      exact Bool.false_ne_true ((hcuts c hc).symm.trans (takesTilde_of_match hit hcx hcz))
  | false =>
      rw [stripIdentTilde_of_no_tilde hnuh] at hbot
      cases hmask : hasIdentTilde mask with
      | true => exact not_common_of_apart hmask hx (.inl hnuh) hlater hit hbot
      | false =>
          have hov := hdis.bots tb htb
          rw [stripIdentTilde_of_no_tilde hmask, globOverlap_of_common hit hbot] at hov
          cases hov

/-- The ban misses an active user. -/
theorem TildesApart.misses_user {b : BotState} {mask : Str} (h : TildesApart b mask)
    (hdis : DisjointStripped b mask) {mr : MaskRecord} (hmr : mr ∈ b.maskRecords)
    (hactive : Authorises b mr) {x y : Str} (hx : byte '!' ∉ x)
    (huser : wildcardMatch mr.mask (x ++ byte '!' :: y) = true) :
    ¬ wildcardMatch mask (x ++ byte '!' :: y) = true := by
  intro hit
  cases hmask : hasIdentTilde mask with
  | true =>
      obtain ⟨hnick, hlater⟩ := h.banTilde hmask mr hmr hactive
      exact not_common_of_apart hmask hx (.inr hnick) hlater hit huser
  | false =>
      cases humask : hasIdentTilde mr.mask with
      | true =>
          obtain ⟨hnick, hlater⟩ := h.userTilde hmask mr hmr hactive humask
          exact not_common_of_apart humask hx (.inr hnick) hlater huser hit
      | false =>
          have hov := hdis.users mr hmr hactive
          rw [stripIdentTilde_of_no_tilde hmask, stripIdentTilde_of_no_tilde humask,
            globOverlap_of_common hit huser] at hov
          cases hov

/-- **An allowed ban spares everybody authorised** where no mask takes a `~` that the other side
has dropped. -/
theorem banSparesAuthorised_of_tildesApart (b : BotState) (mask : Str)
    (hapart : safeToken mask banMaskMax = true → DisjointStripped b mask → TildesApart b mask) :
    BanSparesAuthorised b mask := by
  intro hok nuh hnuh hauth
  obtain ⟨hsafe, hdis⟩ := banAllowedWhy_eq_ok_iff_disjoint.mp hok
  have htildes := hapart hsafe hdis
  have hwho := (isAuthorised_iff hnuh.ne_nil hnuh.1).mp hauth
  obtain ⟨-, x, user, host, rfl, -, hx, -⟩ := hnuh
  rw [← Bool.not_eq_true]
  rcases hwho with ⟨tb, htb, hbot⟩ | ⟨mr, hmr, hactive, huser⟩
  · exact htildes.misses_bot hdis htb hx hbot
  · exact htildes.misses_user hdis hmr hactive hx huser

/-- A bot that trusts another one and knows two operators, one by a mask with a `~`. -/
def twoOperators : BotState :=
  { trustedBots := [{ mask := str "bot!irc@a.net", uuid := str "u" }]
    userRecords := [{ uuid := str "v", isActive := true }, { uuid := str "w", isActive := true }]
    maskRecords := [{ uuid := str "v", mask := str "alice!~al@c.net", isActive := true },
      { uuid := str "w", mask := str "bob*!?bob@*.d.net", isActive := true }] }

/-- Its `?` can take a `~`, but of nobody that the masks name. -/
theorem spares_otherHost : banAllowedWhy twoOperators none (str "*!?irc@*.b.net") = .ok () ∧
    BanSparesAuthorised twoOperators (str "*!?irc@*.b.net") := by
  refine ⟨by decide +kernel, ?_⟩
  refine banSparesAuthorised_of_tildesApart twoOperators (str "*!?irc@*.b.net") fun _ _ => ⟨?_, ?_, ?_⟩
  · decide +kernel
  · intro htilde
    exact absurd htilde (by decide +kernel)
  · have hapart : ∀ mr ∈ twoOperators.maskRecords, hasIdentTilde mr.mask = true →
        takesTilde (str "*!?irc@*.b.net") (nickPart mr.mask) (identPart mr.mask) = false ∧
          takesLater mr.mask (str "*!?irc@*.b.net") = false := by decide +kernel
    exact fun _ mr hmr _ htilde => hapart mr hmr htilde

/-! ### A ban that takes a trusted bot -/

/-- A bot that trusts one other bot, whose stored mask has no `~`. -/
def oneBot : BotState :=
  { trustedBots := [{ mask := str "bot!irc@a.net", uuid := str "u" }] }

/-- The `?` of the ban takes the `~` of the bot's live ident, which the lookup
drops and the overlap test does not see. -/
theorem not_banSparesAuthorised : ¬ BanSparesAuthorised oneBot (str "*!?irc@a.net") := by
  intro hspares
  have hok : banAllowedWhy oneBot none (str "*!?irc@a.net") = .ok () := by decide
  have hmask : IsHostmask (str "bot!~irc@a.net") :=
    ⟨by decide, str "bot", str "~irc", str "a.net", by decide⟩
  have hauth : isAuthorised oneBot (str "bot!~irc@a.net") = true := by decide
  have hmiss := hspares hok _ hmask hauth
  revert hmiss
  decide

end IrcBot.BanSafety
