/-
# The ban mask of a hostmask (`chanenf.rs`)

A mask for somebody's hostmask keeps or drops the nick, keeps, loosens or drops the user, and may
widen the host by one step: the last octet of an IPv4 address, what follows the fourth group of an
IPv6 address, or the first label of a name.

* `widenHost_cases` — how a host can be widened.
* `banMask_hits` — the mask matches the hostmask it was made for, and has its form.
-/
import IrcBot.Jobs

namespace IrcBot.BanMasks

open Cstr Masks Chancfg Chanenf Jobs Lib.Glob

/-! ### Widening a host -/

/-- One step wider. -/
inductive Widened : Str → Str → Prop
  /-- The last octet of an IPv4 address. -/
  | ipv4 (a b c d : Str)
      (octets : ∀ g ∈ [a, b, c, d], 1 ≤ g.length ∧ g.length ≤ 3 ∧ ∀ x ∈ g, (str "0123456789").contains x) :
      Widened (a ++ byte '.' :: (b ++ byte '.' :: (c ++ byte '.' :: d)))
        (a ++ byte '.' :: (b ++ byte '.' :: (c ++ byte '.' :: str "*")))
  /-- Everything after the fourth group of an IPv6 address. -/
  | ipv6 (a b c d rest : Str) (groups : ∀ g ∈ [a, b, c, d], byte ':' ∉ g)
      (spelled : ∀ g ∈ [b, c, d], g ≠ [])
      (digits : allIn (a ++ byte ':' :: (b ++ byte ':' :: (c ++ byte ':' :: (d ++ byte ':' :: rest))))
        (str "0123456789abcdefABCDEF:.") = true) :
      Widened (a ++ byte ':' :: (b ++ byte ':' :: (c ++ byte ':' :: (d ++ byte ':' :: rest))))
        (a ++ byte ':' :: (b ++ byte ':' :: (c ++ byte ':' :: (d ++ byte ':' :: str "*"))))
  /-- The first label of a name. -/
  | name (label rest : Str) (labels : 3 ≤ (splitOn (byte '.') (label ++ byte '.' :: rest)).length)
      (full : ∀ l ∈ splitOn (byte '.') (label ++ byte '.' :: rest), l ≠ [])
      (first : byte '.' ∉ label)
      (notAddress : byte ':' ∉ label ++ byte '.' :: rest ∧
        allIn (label ++ byte '.' :: rest) (str "0123456789.") = false) :
      Widened (label ++ byte '.' :: rest) (str "*" ++ byte '.' :: rest)

theorem Widened.matches {host wide : Str} (h : Widened host wide) :
    Matches (syms wide) (fold host) := by
  have hstar : syms (str "*") = [.star] := rfl
  have hcons (c : UInt8) (s : Str) : c :: s = [c] ++ s := rfl
  cases h with
  | ipv4 a b c d octets =>
      simp only [hcons _ (str "*"), hcons _ (c ++ _), hcons _ (b ++ _), hcons _ d, syms_append,
        fold_append, hstar]
      exact (matches_self a).append ((matches_self _).append ((matches_self b).append
        ((matches_self _).append ((matches_self c).append ((matches_self _).append (matches_star _))))))
  | ipv6 a b c d rest groups spelled digits =>
      simp only [hcons _ (str "*"), hcons _ (d ++ _), hcons _ (c ++ _), hcons _ (b ++ _),
        hcons _ rest,
        syms_append, fold_append, hstar]
      exact (matches_self a).append ((matches_self _).append ((matches_self b).append
        ((matches_self _).append ((matches_self c).append ((matches_self _).append
          ((matches_self d).append ((matches_self _).append (matches_star _))))))))
  | name label rest labels full first notAddress =>
      rw [syms_append, fold_append, hstar]
      exact (matches_star _).append (matches_self _)

/-- Groups with a colon behind each. -/
def colonEnds (gs : List Str) : Str := gs.flatMap fun g => g ++ [byte ':']

/-- What the walk over an IPv6 address has passed when it stops: the groups up to the fourth, and
none but the first is empty. -/
theorem fourGroups_spec (s : Str) :
    ∀ {i colons j : Nat}, colons < 4 → fourGroups i colons s = some j →
    ∃ g gs rest, s = colonEnds (g :: gs) ++ rest ∧ gs.length = 3 - colons ∧
      i + (colonEnds (g :: gs)).length = j + 1 ∧ (∀ x ∈ g :: gs, byte ':' ∉ x) ∧
        ∀ x ∈ gs, x ≠ [] := by
  induction s with
  | nil =>
      intro i colons j _ h
      cases h
  | cons c s ih =>
      intro i colons j hcolons h
      unfold fourGroups at h
      split at h
      · rename_i hc
        split at h
        · cases h
        · rename_i hspelled
          split at h
          · -- the fourth colon
            obtain rfl := Option.some.inj h
            refine ⟨[], [], s, ?_, ?_, rfl, ?_, ?_⟩
            · rw [hc]
              rfl
            · rw [List.length_nil]
              omega
            · intro x hx
              rw [List.mem_singleton.mp hx]
              exact List.not_mem_nil
            · intro x hx
              cases hx
          · rename_i hmore
            obtain ⟨g, gs, rest, hs, hlen, hend, hgroups, hfull⟩ := ih (by omega) h
            refine ⟨[], g :: gs, rest, ?_, ?_, ?_, ?_, ?_⟩
            · rw [hs, hc]
              rfl
            · rw [List.length_cons]
              omega
            · rw [← hend, show colonEnds ([] :: g :: gs) = byte ':' :: colonEnds (g :: gs) from rfl,
                List.length_cons]
              omega
            · intro x hx
              rcases List.mem_cons.mp hx with rfl | hx
              · exact List.not_mem_nil
              · exact hgroups x hx
            · intro x hx
              rcases List.mem_cons.mp hx with rfl | hx
              · rintro rfl
                apply hspelled
                constructor
                · omega
                · rw [hs]
                  rfl
              · exact hfull x hx
      · rename_i hc
        obtain ⟨g, gs, rest, hs, hlen, hend, hgroups, hfull⟩ := ih hcolons h
        refine ⟨c :: g, gs, rest, ?_, hlen, ?_, ?_, hfull⟩
        · rw [hs]
          rfl
        · rw [← hend, show colonEnds ((c :: g) :: gs) = c :: colonEnds (g :: gs) from rfl,
            List.length_cons]
          omega
        · intro x hx
          rcases List.mem_cons.mp hx with rfl | hx
          · intro hmem
            rcases List.mem_cons.mp hmem with heq | hmem
            · exact hc heq.symm
            · exact hgroups g List.mem_cons_self hmem
          · exact hgroups x (List.mem_cons_of_mem g hx)

/-- A host with four dotted parts. -/
theorem splitOn_four {host a b c d : Str} (h : splitOn (byte '.') host = [a, b, c, d]) :
    host = a ++ byte '.' :: (b ++ byte '.' :: (c ++ byte '.' :: d)) := by
  rcases splitOn_eq_cons h with ⟨-, hnil⟩ | ⟨r₁, rfl, h₁⟩
  · cases hnil
  rcases splitOn_eq_cons h₁ with ⟨-, hnil⟩ | ⟨r₂, rfl, h₂⟩
  · cases hnil
  rcases splitOn_eq_cons h₂ with ⟨-, hnil⟩ | ⟨r₃, rfl, h₃⟩
  · cases hnil
  rcases splitOn_eq_cons h₃ with ⟨rfl, -⟩ | ⟨r₄, -, h₄⟩
  · rfl
  · exact absurd h₄ (splitOn_ne_nil _ _)

theorem contains_of_allIn {s set : Str} (h : allIn s set = true) {x : UInt8} (hx : x ∈ s) :
    set.contains x = true := by
  unfold allIn at h
  rw [Bool.and_eq_true] at h
  exact List.all_eq_true.mp h.2 x hx

theorem widened_ipv4 {host : Str} (hdigits : allIn host (str "0123456789.") = true)
    (h : isIpv4 host = true) :
    Widened host (host.take
      (host.length - ((splitOn (byte '.') host).getLast?.getD []).length - 1 + 1) ++ str "*") := by
  unfold isIpv4 at h
  rw [Bool.and_eq_true, beq_iff_eq, List.all_eq_true] at h
  obtain ⟨hlen, hgroups⟩ := h
  obtain ⟨a, b, c, d, hsplit⟩ := List.length_eq_four.mp hlen
  rw [hsplit] at hgroups ⊢
  have hdot (g : Str) (hg : g ∈ [a, b, c, d]) : byte '.' ∉ g := by
    rw [← hsplit] at hg
    exact notMem_of_mem_splitOn hg
  have hhost := splitOn_four hsplit
  have hmem (g : Str) (hg : g ∈ [a, b, c, d]) : ∀ x ∈ g, x ∈ host := by
    intro x hx
    rw [hhost]
    simp only [List.mem_cons, List.not_mem_nil, or_false] at hg
    rcases hg with rfl | rfl | rfl | rfl <;> simp [hx]
  have htake : host.take (host.length - (([a, b, c, d] : List Str).getLast?.getD []).length - 1 + 1) =
      a ++ byte '.' :: (b ++ byte '.' :: (c ++ [byte '.'])) := by
    have hsum : host.length - (([a, b, c, d] : List Str).getLast?.getD []).length - 1 + 1 =
        (a ++ byte '.' :: (b ++ byte '.' :: (c ++ [byte '.']))).length := by
      rw [hhost]
      simp only [List.getLast?_cons_cons, List.getLast?_singleton, Option.getD_some,
        List.length_append,
        List.length_cons, List.length_nil]
      omega
    have hfront : host = (a ++ byte '.' :: (b ++ byte '.' :: (c ++ [byte '.']))) ++ d := by
      rw [hhost]
      simp
    rw [hsum]
    conv_lhs => rw [hfront]
    rw [List.take_left]
  rw [htake, hhost]
  have hwide := Widened.ipv4 a b c d (by
    intro g hg
    obtain hsize := hgroups g hg
    rw [Bool.and_eq_true, decide_eq_true_eq, decide_eq_true_eq] at hsize
    refine ⟨hsize.1, hsize.2, ?_⟩
    intro x hx
    have hset := contains_of_allIn hdigits (hmem g hg x hx)
    have hne : x ≠ byte '.' := fun heq => hdot g hg (heq ▸ hx)
    rw [show str "0123456789." = str "0123456789" ++ [byte '.'] from rfl,
      List.contains_append] at hset
    simpa [hne] using hset)
  simpa using hwide

theorem widened_ipv6 {host : Str} (hdigits : allIn host (str "0123456789abcdefABCDEF:.") = true)
    {i : Nat} (h : fourGroups 0 0 host = some i) : Widened host (host.take (i + 1) ++ str "*") := by
  obtain ⟨a, gs, rest, hhost, hlen, hend, hgroups, hfull⟩ := fourGroups_spec host (by omega) h
  obtain ⟨b, c, d, rfl⟩ := List.length_eq_three.mp hlen
  rw [Nat.zero_add] at hend
  have hends : colonEnds [a, b, c, d] =
      a ++ byte ':' :: (b ++ byte ':' :: (c ++ byte ':' :: (d ++ [byte ':']))) := by
    simp [colonEnds]
  have htake : host.take (i + 1) = colonEnds [a, b, c, d] := by
    rw [← hend]
    conv_lhs => rw [hhost]
    exact List.take_left
  have hspell : host =
      a ++ byte ':' :: (b ++ byte ':' :: (c ++ byte ':' :: (d ++ byte ':' :: rest))) := by
    rw [hhost, hends]
    simp
  rw [htake, hends]
  rw [hspell] at hdigits ⊢
  simpa using Widened.ipv6 a b c d rest hgroups hfull hdigits

theorem widened_name {host : Str} (hcolon : byte ':' ∉ host)
    (hdigits : allIn host (str "0123456789.") = false)
    (hfull : ∀ l ∈ splitOn (byte '.') host, l ≠ []) (hlen : 3 ≤ (splitOn (byte '.') host).length) :
    Widened host (str "*" ++ host.drop ((splitOn (byte '.') host).head?.getD []).length) := by
  obtain ⟨label, ls, hsplit⟩ := List.exists_cons_of_ne_nil (splitOn_ne_nil (byte '.') host)
  have hlabel : byte '.' ∉ label := notMem_of_mem_splitOn (s := host) (by
    rw [hsplit]
    exact List.mem_cons_self)
  rcases splitOn_eq_cons hsplit with ⟨-, hnil⟩ | ⟨rest, rfl, -⟩
  · rw [hsplit, hnil] at hlen
    simp at hlen
  · rw [hsplit, List.head?_cons, Option.getD_some, List.drop_left]
    exact .name label rest hlen hfull hlabel ⟨hcolon, hdigits⟩

/-- **How a host is widened**: one step, or not at all. -/
theorem widenHost_cases (host : Str) : widenHost host = host ∨ Widened host (widenHost host) := by
  unfold widenHost
  split
  · exact .inl rfl
  · split
    · split
      · exact .inl rfl
      · rename_i hdigits
        rw [Bool.not_eq_true, Bool.not_eq_false'] at hdigits
        split
        · rename_i i hgroups
          split
          · exact .inl rfl
          · exact .inr (widened_ipv6 hdigits hgroups)
        · exact .inl rfl
    · rename_i hcolon
      have hcolon' : byte ':' ∉ host := by simpa using hcolon
      split
      · rename_i hdigits
        dsimp only
        split
        · exact .inl rfl
        · rename_i hform
          simp only [Bool.or_eq_true, Bool.not_eq_true', not_or, Bool.not_eq_false] at hform
          exact .inr (widened_ipv4 hdigits hform.1)
      · rename_i hdigits
        rw [Bool.not_eq_true] at hdigits
        dsimp only
        split
        · exact .inl rfl
        · rename_i hlabels
          simp only [Bool.or_eq_true, not_or, decide_eq_true_eq, Nat.not_lt] at hlabels
          right
          apply widened_name hcolon' hdigits
          · intro l hl hempty
            apply hlabels.1
            apply List.any_eq_true.mpr
            exact ⟨l, hl, by rw [hempty]; rfl⟩
          · exact hlabels.2

/-! ### The mask -/

/-- A part of a mask: not empty, and without the separators of a hostmask. -/
def Part (p : Str) : Prop := p ≠ [] ∧ byte '!' ∉ p ∧ byte '@' ∉ p

theorem part_star : Part (str "*") := by
  refine ⟨?_, ?_, ?_⟩ <;> decide

theorem notMem_of_literalText {p : Str} (h : literalText p = true) {c : UInt8}
    (hc : (str "*?!@,").contains c = true) : c ∉ p := by
  intro hmem
  unfold literalText at h
  rw [Bool.and_eq_true, Bool.not_eq_true', List.any_eq_false] at h
  exact h.2 c hmem hc

theorem part_of_literalText {p : Str} (h : literalText p = true) (hne : p ≠ []) : Part p :=
  ⟨hne, notMem_of_literalText h (by decide), notMem_of_literalText h (by decide)⟩

/-- Widening brings in no byte but the star. -/
theorem Widened.mem {host wide : Str} (h : Widened host wide) {c : UInt8} (hc : c ∈ wide) :
    c ∈ host ∨ c = byte '*' := by
  have hstar : str "*" = [byte '*'] := rfl
  cases h with
  | ipv4 a b c d octets =>
      simp only [hstar, List.mem_append, List.mem_cons, List.not_mem_nil, or_false] at hc ⊢
      grind
  | ipv6 a b c d rest groups spelled digits =>
      simp only [hstar, List.mem_append, List.mem_cons, List.not_mem_nil, or_false] at hc ⊢
      grind
  | name label rest labels full first notAddress =>
      simp only [hstar, List.mem_append, List.mem_cons, List.not_mem_nil, or_false] at hc ⊢
      grind

theorem Widened.part {host wide : Str} (h : Widened host wide) (hhost : Part host) : Part wide := by
  refine ⟨?_, ?_, ?_⟩
  · cases h <;> simp [str]
  · intro hmem
    rcases h.mem hmem with hold | hstar
    · exact hhost.2.1 hold
    · revert hstar
      decide
  · intro hmem
    rcases h.mem hmem with hold | hstar
    · exact hhost.2.2 hold
    · revert hstar
      decide

/-- The user as a ban type keeps it: as it is, behind a star and without its tilde, or not at
all. -/
inductive UserPart (user : Str) : Str → Prop
  | same : UserPart user user
  | loose : UserPart user (str "*" ++ if user.head? = some (byte '~') then user.tail else user)
  | any : UserPart user (str "*")

theorem UserPart.matches {user u : Str} (h : UserPart user u) : Matches (syms u) (fold user) := by
  have hstar : syms (str "*") = [.star] := rfl
  cases h with
  | same => exact matches_self user
  | loose =>
      rw [syms_append, hstar]
      split
      · rename_i htilde
        obtain ⟨rest, rfl⟩ := List.head?_eq_some_iff.mp htilde
        rw [List.tail_cons, fold_cons]
        exact .starEat (.starSkip (matches_self rest))
      · exact .starSkip (matches_self user)
  | any => exact matches_star _

theorem UserPart.part {user u : Str} (h : UserPart user u) (huser : Part user) : Part u := by
  have hsub : ∀ c ∈ (if user.head? = some (byte '~') then user.tail else user), c ∈ user := by
    intro c hc
    split at hc
    · exact List.mem_of_mem_tail hc
    · exact hc
  have hloose (c : UInt8) (hc : c ≠ byte '*') (hnot : c ∉ user) :
      c ∉ str "*" ++ if user.head? = some (byte '~') then user.tail else user := by
    intro hmem
    rcases List.mem_append.mp hmem with hstar | hold
    · exact hc (List.mem_singleton.mp hstar)
    · exact hnot (hsub c hold)
  cases h with
  | same => exact huser
  | loose =>
      refine ⟨?_, hloose _ (by decide) huser.2.1, hloose _ (by decide) huser.2.2⟩
      simp [str]
  | any => exact part_star

/-- What a ban mask is made of. -/
structure Hits (typ : Int) (nuh mask : Str) : Prop where
  hit : wildcardMatch mask nuh = true
  short : mask.length ≤ banMaskMax
  /-- `nick!user@host`, and the host as it is, or widened by a step where the type asks for that. -/
  form : ∃ nick user host nk u h, nuh = nick ++ byte '!' :: (user ++ byte '@' :: host) ∧
    mask = nk ++ byte '!' :: (u ++ byte '@' :: h) ∧ Part nk ∧ Part u ∧ Part h ∧
    (nk = nick ∨ nk = str "*") ∧ UserPart user u ∧
    (h = host ∨ [3, 4, 8, 9].contains typ = true ∧ Widened host h)

/-- **A ban mask hits its target**, whatever the hostmask. -/
theorem banMask_hits {typ : Int} {nuh mask : Str} (h : banMask typ nuh = some mask) :
    Hits typ nuh mask := by
  unfold banMask at h
  split at h
  · cases h
  split at h
  · cases h
  rename_i nick rest hbang
  split at h
  · cases h
  rename_i user host hat
  split at h
  · cases h
  rename_i hsizes
  split at h
  · cases h
  rename_i hliteral
  dsimp only at h
  have hnuh : nuh = nick ++ byte '!' :: (user ++ byte '@' :: host) := by
    rw [splitOnce_eq_some hbang, splitOnce_eq_some hat]
  simp only [Bool.or_eq_true, List.isEmpty_iff, not_or] at hsizes
  obtain ⟨⟨⟨⟨⟨hnick, -⟩, huser⟩, -⟩, hhost⟩, -⟩ := hsizes
  simp only [List.any_cons, List.any_nil, Bool.or_false, Bool.or_eq_true, Bool.not_eq_true', not_or,
    Bool.not_eq_false] at hliteral
  obtain ⟨hnickText, huserText, hhostText⟩ := hliteral
  have hnickPart := part_of_literalText hnickText hnick
  have huserPart := part_of_literalText huserText huser
  have hhostPart := part_of_literalText hhostText hhost
  -- the three parts of the mask, each with what it is and what it matches
  generalize hnk : (if 5 ≤ typ then nick else str "*") = nk at h
  have hnk' : nk = nick ∨ nk = str "*" := by
    rw [← hnk]
    split
    · exact .inl rfl
    · exact .inr rfl
  generalize hu : (if typ % 5 = 0 then user else if typ % 5 = 1 ∨ typ % 5 = 3 then
    str "*" ++ (if user.head? = some (byte '~') then user.tail else user) else str "*") = u at h
  have hu' : UserPart user u := by
    rw [← hu]
    split
    · exact .same
    · split
      · exact .loose
      · exact .any
  generalize hh : (if [3, 4, 8, 9].contains typ = true then widenHost host else host) = hm at h
  have hh' : hm = host ∨ [3, 4, 8, 9].contains typ = true ∧ Widened host hm := by
    rw [← hh]
    split
    · rename_i hwiden
      rcases widenHost_cases host with hsame | hwide
      · exact .inl hsame
      · exact .inr ⟨hwiden, hwide⟩
    · exact .inl rfl
  have hnkMatch : Matches (syms nk) (fold nick) := by
    rcases hnk' with rfl | rfl
    · exact matches_self nk
    · exact matches_star _
  have hhMatch : Matches (syms hm) (fold host) := by
    rcases hh' with rfl | ⟨-, hwide⟩
    · exact matches_self hm
    · exact hwide.matches
  split at h
  · rename_i hshort
    obtain rfl := Option.some.inj h
    have hmask : nk ++ str "!" ++ u ++ str "@" ++ hm = nk ++ byte '!' :: (u ++ byte '@' :: hm) := by
      simp [show str "!" = [byte '!'] from rfl, show str "@" = [byte '@'] from rfl]
    constructor
    · rw [wildcardMatch_iff, hmask, hnuh, syms_append, syms_cons, syms_append, syms_cons,
        fold_append,
        fold_cons, fold_append, fold_cons]
      exact hnkMatch.append ((matches_self [byte '!']).append
        (hu'.matches.append ((matches_self [byte '@']).append hhMatch)))
    · exact hshort
    · refine ⟨nick, user, host, nk, u, hm, hnuh, hmask, ?_, hu'.part huserPart, ?_, hnk', hu', hh'⟩
      · rcases hnk' with rfl | rfl
        · exact hnickPart
        · exact part_star
      · rcases hh' with rfl | ⟨-, hwide⟩
        · exact hhostPart
        · exact hwide.part hhostPart
  · cases h

theorem banMask_hits_ipv6 : Hits 4 (str "a!b@2001:db8:1:2:3:4:5:6") (str "*!*@2001:db8:1:2:*") :=
  banMask_hits (by decide)

end IrcBot.BanMasks
