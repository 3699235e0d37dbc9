/-
# One name space for bots, admins and opers (`commands.rs`)

"Names are unique across bots, admins and opers", says `cmd_chnick`, and it checks all
three kinds of records. `cmd_add_user` checks the users only, and `cmd_add_bot` no name.

* `Run.distinct` — names stay distinct as long as no user is added under a bot's name, and
  no bot under a name in use.
* `not_distinct` — the bot's own nick can be given to an admin.
-/
import IrcBot.Lib.Keyed
import IrcBot.UserCommands

namespace IrcBot.NameTable

open Cstr UserCommands Lib.Keyed

variable (P : Primitives)

/-! ### Distinct names -/

/-- The names in use, in lower case. -/
def keys (d : Directory) : List Str := d.names.map (·.map lower)

/-- No two names in use are equal up to case. -/
def Distinct (d : Directory) : Prop := (keys d).Nodup

instance (d : Directory) : Decidable (Distinct d) := inferInstanceAs (Decidable (List.Nodup _))

/-- The name a user holds, and the one a trusted bot does. -/
def userKey (u : UserRecord) : Option Str := if u.isActive then some (u.name.map lower) else none

def botKey (t : TrustedBot) : Option Str := some (t.nick.map lower)

theorem keys_eq (d : Directory) :
    keys d = d.targetNick.map lower :: (d.users.filterMap userKey ++ d.bots.filterMap botKey) := by
  have husers : ((d.users.filter (·.isActive)).map (·.name)).map (·.map lower) =
      d.users.filterMap userKey := by
    induction d.users with
    | nil => rfl
    | cons u users ih => cases hu : u.isActive <;> simp [userKey, hu, ← ih]
  have hbots : (d.bots.map (·.nick)).map (·.map lower) = d.bots.filterMap botKey := by
    rw [List.map_map]
    exact (List.filterMap_eq_map (f := fun t : TrustedBot => t.nick.map lower)).symm ▸ rfl
  rw [keys, Directory.names, List.map_cons, List.map_append, husers, hbots]

theorem nameFree_iff {d : Directory} {name : Str} : NameFree d name ↔ name.map lower ∉ keys d := by
  constructor
  · intro h hmem
    obtain ⟨x, hx, heq⟩ := List.mem_map.mp hmem
    exact absurd (eqIc_iff.mpr heq) (Bool.eq_false_iff.mp (h x hx))
  · intro h x hx
    refine Bool.eq_false_iff.mpr fun heq => h ?_
    rw [← eqIc_iff.mp heq]
    exact List.mem_map_of_mem hx

theorem distinct_iff {d : Directory} :
    Distinct d ↔
      (d.targetNick.map lower ∉ d.users.filterMap userKey ∧
        d.targetNick.map lower ∉ d.bots.filterMap botKey) ∧
      (d.users.filterMap userKey).Nodup ∧ (d.bots.filterMap botKey).Nodup ∧
      ∀ k ∈ d.users.filterMap userKey, k ∉ d.bots.filterMap botKey := by
  rw [Distinct, keys_eq, List.nodup_cons, List.nodup_append, List.mem_append, not_or]
  refine and_congr_right fun _ => and_congr_right fun _ => and_congr_right fun _ => ?_
  constructor
  · intro h k hk hk'
    exact h k hk k hk' rfl
  · intro h k hk k' hk' heq
    exact h k hk (heq ▸ hk')

theorem notMem_keys {d : Directory} {k : Str} :
    k ∉ keys d ↔ k ≠ d.targetNick.map lower ∧ k ∉ d.users.filterMap userKey ∧
      k ∉ d.bots.filterMap botKey := by
  rw [keys_eq, List.mem_cons, List.mem_append, not_or, not_or]

/-! ### What a change does to the names -/

/-- A user that changes keeps the names distinct, if its name then was its own or free. -/
theorem Distinct.modifyUser {d : Directory} {ui : Nat} {f : UserRecord → UserRecord}
    (h : Distinct d) (hkey : ∀ u k, d.users[ui]? = some u → userKey (f u) = some k →
      userKey u = some k ∨ k ∉ keys d) : Distinct { d with users := d.users.modify ui f } := by
  obtain ⟨⟨htu, htb⟩, hu, hb, hub⟩ := distinct_iff.mp h
  -- every name there is then was there, or is free
  have hmem {k : Str} (hk : k ∈ (d.users.modify ui f).filterMap userKey) :
      k ∈ d.users.filterMap userKey ∨ k ∉ keys d := by
    rcases mem_filterMap_modify hk with hk | ⟨u, hu, hfu⟩
    · exact .inl hk
    · exact (hkey u k hu hfu).imp_left fun hold =>
        List.mem_filterMap.mpr ⟨u, List.mem_of_getElem? hu, hold⟩
  refine distinct_iff.mpr ⟨⟨fun ht => ?_, htb⟩, ?_, hb, fun k hk => ?_⟩
  · rcases hmem ht with ht | ht
    · exact htu ht
    · exact (notMem_keys.mp ht).1 rfl
  · exact nodup_filterMap_modify hu fun u k hu' hfu =>
      (hkey u k hu' hfu).imp_right fun hfree => (notMem_keys.mp hfree).2.1
  · rcases hmem hk with hk | hk
    · exact hub k hk
    · exact (notMem_keys.mp hk).2.2

/-- A bot that is renamed keeps the names distinct, if its name then is free. -/
theorem Distinct.modifyBot {d : Directory} {ti : Nat} {f : TrustedBot → TrustedBot}
    (h : Distinct d) (hkey : ∀ t k, d.bots[ti]? = some t → botKey (f t) = some k → k ∉ keys d) :
    Distinct { d with bots := d.bots.modify ti f } := by
  obtain ⟨⟨htu, htb⟩, hu, hb, hub⟩ := distinct_iff.mp h
  have hmem {k : Str} (hk : k ∈ (d.bots.modify ti f).filterMap botKey) :
      k ∈ d.bots.filterMap botKey ∨ k ∉ keys d := by
    rcases mem_filterMap_modify hk with hk | ⟨t, ht, hft⟩
    · exact .inl hk
    · exact .inr (hkey t k ht hft)
  refine distinct_iff.mpr ⟨⟨htu, fun ht => ?_⟩, hu, ?_, fun k hk hk' => ?_⟩
  · rcases hmem ht with ht | ht
    · exact htb ht
    · exact (notMem_keys.mp ht).1 rfl
  · exact nodup_filterMap_modify hb fun t k ht hft => .inr (notMem_keys.mp (hkey t k ht hft)).2.2
  · rcases hmem hk' with hk' | hk'
    · exact hub k hk hk'
    · exact (notMem_keys.mp hk').2.1 hk

theorem Distinct.addUser {d : Directory} {u : UserRecord} (h : Distinct d)
    (hactive : u.isActive = true) :
    Distinct { d with users := d.users ++ [u] } ↔ NameFree d u.name := by
  have hkey : userKey u = some (u.name.map lower) := if_pos hactive
  obtain ⟨⟨htu, htb⟩, hu, hb, hub⟩ := distinct_iff.mp h
  rw [distinct_iff, nameFree_iff, notMem_keys]
  simp only [List.filterMap_append, List.filterMap_cons_some hkey, List.filterMap_nil,
    List.mem_append, List.mem_singleton, List.nodup_append]
  constructor
  · rintro ⟨⟨ht, -⟩, ⟨-, -, hnew⟩, -, hdisjoint⟩
    exact ⟨fun heq => ht (.inr heq.symm), fun hmem => hnew _ hmem _ rfl rfl, hdisjoint _ (.inr rfl)⟩
  · rintro ⟨ht, hnew, hbots⟩
    refine ⟨⟨?_, htb⟩, ⟨hu, List.nodup_singleton _, ?_⟩, hb, ?_⟩
    · rintro (hmem | heq)
      · exact htu hmem
      · exact ht heq.symm
    · rintro k hk k' rfl rfl
      exact hnew hk
    · rintro k (hk | rfl)
      · exact hub k hk
      · exact hbots

theorem Distinct.addBot {d : Directory} {t : TrustedBot} (h : Distinct d) :
    Distinct { d with bots := d.bots ++ [t] } ↔ NameFree d t.nick := by
  obtain ⟨⟨htu, htb⟩, hu, hb, hub⟩ := distinct_iff.mp h
  rw [distinct_iff, nameFree_iff, notMem_keys]
  simp only [List.filterMap_append, List.filterMap_cons_some (show botKey t = some _ from rfl),
    List.filterMap_nil, List.mem_append, List.mem_singleton, List.nodup_append, not_or]
  constructor
  · rintro ⟨⟨-, -, ht⟩, -, ⟨-, -, hnew⟩, hdisjoint⟩
    exact ⟨fun heq => ht heq.symm, fun hmem => (hdisjoint _ hmem).2 rfl,
      fun hmem => hnew _ hmem _ rfl rfl⟩
  · rintro ⟨ht, husers, hnew⟩
    refine ⟨⟨htu, htb, fun heq => ht heq.symm⟩, hu, ⟨hb, List.nodup_singleton _, ?_⟩,
      fun k hk => ⟨hub k hk, ?_⟩⟩
    · rintro k hk k' rfl rfl
      exact hnew hk
    · rintro rfl
      exact husers hk

theorem notMem_of_rfcNick {new : Str} (h : isRfcNick new = true) : byte '!' ∉ new := by
  intro hmem
  obtain ⟨i, hi⟩ := List.mem_iff_getElem?.mp hmem
  have hall := (Bool.and_eq_true_iff.mp h).2
  have hchar := List.all_eq_true.mp hall (byte '!', i) (List.mem_zipIdx_iff_getElem?.mpr hi)
  have hnot : (isAlpha (byte '!') || (str "[]\\`_^\x7b\x7d").contains (byte '!') ||
      (isDigit (byte '!') || byte '!' == byte '-')) = false := by decide
  simp only [Bool.or_eq_false_iff] at hnot
  simp only [hnot, Bool.or_self, Bool.false_and, Bool.false_eq_true] at hchar

/-- A renamed bot has the new nick. -/
theorem nick_renamedBot {new : Str} (hrfc : isRfcNick new = true) (now : Int) (t : TrustedBot) :
    (renamedBot now new t).nick = new := by
  have hvalid := (Bool.and_eq_true_iff.mp hrfc).1
  have hlen : new.length < maxNick := by
    simp only [isValidBotNick, Bool.and_eq_true, decide_eq_true_eq] at hvalid
    exact hvalid.1.2
  have hall : ∀ c ∈ new, decide (c ≠ byte '!') = true := fun c hc =>
    decide_eq_true fun heq => notMem_of_rfcNick hrfc (heq ▸ hc)
  have hrest : (t.mask.dropWhile (· ≠ byte '!')).takeWhile (· ≠ byte '!') = [] := by
    cases hd : t.mask.dropWhile (· ≠ byte '!') with
    | nil => rfl
    | cons c cs =>
        have hc := List.head?_dropWhile_not (fun c : UInt8 => decide (c ≠ byte '!')) t.mask
        rw [hd] at hc
        exact List.takeWhile_cons_of_neg (by simpa using hc)
  rw [TrustedBot.nick, maskNick, renamedBot, renamedMask,
    List.takeWhile_append_of_pos hall, hrest, List.append_nil,
    trunc_of_lt hlen]

/-! ### Runs -/

/-- What the checks of +admin, +oper and +bot leave out: a new user has no name of a bot's,
and a new bot no name in use. -/
def NewName (b : BotState) (c : Command) (a : Args) : Prop :=
  match c with
  | .addUser addAdmin => ∀ u m, newUser P b addAdmin a = .ok (u, m) →
      eqIc b.targetNick u.name = false ∧ ∀ t ∈ b.trustedBots, eqIc t.nick u.name = false
  | .addBot => ∀ tb, newBot P b a = .ok tb → NameFree (directory b) tb.nick
  | _ => True

/-- A new user's name is free exactly if no bot has it. -/
theorem NewUser.nameFree_iff {b : BotState} {a : Args} {u : UserRecord} {m : MaskRecord}
    (h : NewUser P b a u m) :
    NameFree (directory b) u.name ↔
      eqIc b.targetNick u.name = false ∧ ∀ t ∈ b.trustedBots, eqIc t.nick u.name = false := by
  constructor
  · intro hfree
    refine ⟨hfree _ List.mem_cons_self, fun t ht => hfree _ ?_⟩
    exact List.mem_cons_of_mem _ (List.mem_append_right _ (List.mem_map_of_mem ht))
  · rintro ⟨htarget, hbots⟩ x hx
    rcases List.mem_cons.mp hx with rfl | hx
    · exact htarget
    · rcases List.mem_append.mp hx with hx | hx
      · obtain ⟨v, hv, rfl⟩ := List.mem_map.mp hx
        obtain ⟨hv, hactive⟩ := List.mem_filter.mp hv
        exact h.unnamed v hv hactive
      · obtain ⟨t, ht, rfl⟩ := List.mem_map.mp hx
        exact hbots t ht

/-- **A command keeps the names distinct**, if it adds none that is in use. -/
theorem Distinct.edit {b : BotState} {a : Args} {c : Command} {d : Directory}
    (h : Distinct (directory b)) (hedit : Edit P b a (directory b) c d)
    (hnew : NewName P b c a) : Distinct d := by
  cases hedit with
  | stay | revive | addMask | delMask => exact h
  | addUser hok =>
      have huser := newUser_of_ok P hok
      exact (h.addUser huser.active).mpr ((NewUser.nameFree_iff P huser).mpr (hnew _ _ hok))
  | delUser => exact h.modifyUser fun _ _ _ hk => nomatch hk
  | setKey => exact h.modifyUser fun _ _ _ hk => .inl hk
  | renameUser hfree =>
      refine h.modifyUser fun u k _ hk => .inr ?_
      obtain rfl : (renamedUser b.now _ u).name.map lower = k := by
        unfold userKey at hk
        split at hk
        · exact Option.some.inj hk
        · cases hk
      exact NameTable.nameFree_iff.mp hfree
  | renameBot hfree hrfc =>
      refine h.modifyBot fun t k _ hk => ?_
      obtain rfl := Option.some.inj hk
      rw [nick_renamedBot hrfc]
      exact NameTable.nameFree_iff.mp hfree
  | ownNick hfree =>
      have hkeys := notMem_keys.mp (NameTable.nameFree_iff.mp hfree)
      obtain ⟨-, hu, hb, hub⟩ := distinct_iff.mp h
      exact distinct_iff.mpr ⟨hkeys.2, hu, hb, hub⟩
  | addBot hok => exact h.addBot.mpr (hnew _ hok)
  | delBot =>
      refine h.sublist ?_
      rw [keys_eq, keys_eq]
      refine List.Sublist.cons_cons _ ((List.Sublist.refl _).append ?_)
      exact (List.eraseIdx_sublist _ _).filterMap _

/-- It is exactly then that names stay distinct over a command. -/
theorem distinct_exec_iff {b : BotState} (h : Distinct (directory b)) (nick : Str) (a : Args)
    (c : Command) : Distinct (directory (c.exec P b nick a)) ↔ NewName P b c a := by
  refine ⟨fun hd => ?_, h.edit P (edit_exec P b nick a c)⟩
  cases c with
  | addUser addAdmin =>
      intro u m hok
      have huser := newUser_of_ok P hok
      rw [Command.exec, cmdAddUser, hok] at hd
      dsimp only at hd
      rw [directory_say, directory_pushAdminDelta, directory_writeConfig] at hd
      exact (NewUser.nameFree_iff P huser).mp ((h.addUser huser.active).mp hd)
  | addBot =>
      intro tb hok
      rw [Command.exec, cmdAddBot, hok] at hd
      dsimp only at hd
      rw [directory_say, directory_writeConfig] at hd
      exact h.addBot.mp hd
  | delUser | addUsermask | delUsermask | chkey | ownChkey | chnick | delBot => trivial

theorem keys_idle (d : Directory) : keys d.idle = keys d := by
  have husers : (d.users.map idleUser).filterMap userKey = d.users.filterMap userKey := by
    rw [List.filterMap_map]
    rfl
  rw [keys_eq, keys_eq]
  exact congrArg (fun us => d.targetNick.map lower :: (us ++ d.bots.filterMap botKey)) husers

/-- **Names stay distinct**, in a run that adds none that is in use. -/
theorem Run.distinct {b₀ b : BotState} (hrun : Run P (NewName P) b₀ b)
    (h : Distinct (directory b₀)) : Distinct (directory b) := by
  induction hrun with
  | start => exact h
  | @command b _ nick a c hnew ih => exact ih.edit P (edit_exec P b nick a c) hnew
  | other _ hidle ih =>
      rw [Distinct, ← keys_idle, hidle, keys_idle]
      exact ih

/-- A bot on its own. -/
def lone : BotState := { now := 100, targetNick := str "bot" }

def addAdmin (name : Str) : BotState :=
  (Command.addUser true).exec .clear lone (str "n")
    { a1 := some name, a2 := some someKey, a3 := some (str "a!a@h") }

/-- An admin with a name of her own. -/
theorem distinct_alice :
    userByName (addAdmin (str "alice")) (str "Alice") = some 0 ∧
      Distinct (directory (addAdmin (str "alice"))) := by
  refine ⟨by decide, Run.distinct .clear (.command .start _ _ _ fun u m hok => ?_) (by decide)⟩
  have hname := (newUser_of_ok .clear hok).name
  rw [← Option.some.inj hname]
  exact ⟨by decide, fun t ht => absurd ht List.not_mem_nil⟩

/-- The bot's own nick can be given to an admin. -/
theorem not_distinct : ¬ ∀ (P : Primitives) (b₀ b : BotState),
    Run P (fun _ _ _ => True) b₀ b → Distinct (directory b₀) → Distinct (directory b) := by
  intro hall
  have hrun : Run .clear (fun _ _ _ => True) lone (addAdmin (str "Bot")) :=
    .command .start _ _ _ trivial
  exact absurd (hall .clear lone _ hrun (by decide)) (by decide)

end IrcBot.NameTable
