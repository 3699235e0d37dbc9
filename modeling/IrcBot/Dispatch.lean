/-
# Commands of people (`commands.rs`)

A command line that was opened is split, screened and handed on, whether it came by PRIVMSG or down
a chat. What a command does that is not of the chats comes as a list of `Work`: any of it, in any
order.

* `behind_a2OpenCommand` — who is behind a command that was opened.
-/
import IrcBot.Commands
import IrcBot.DccChats
import IrcBot.SealedCommand
import IrcBot.UserCommands

namespace IrcBot.DccChats

open Cstr DccLife Commands Activity

open Sendq (A2rCtx)

/-! ### Work -/

/-- What a command, or the rest of the bot, does: a line is printed, a parked command is answered
where it came from, all chats are closed for an upgrade, or something changes that is not of the
chats. -/
inductive Work where
  | print (line : Str)
  | answer (i dccToken : Nat) (a2r : A2rCtx) (lines : List Str)
  | closeAll (reason : Str)
  | outside (o : Outside)

/-- What each command does. -/
abbrev Handler := World → Call → List Work

/-- `HUB_ONLY_CMDS`. -/
def hubOnlyCmds : List Str :=
  [str "+admin", str "-admin", str "+oper", str "-oper", str "+usermask", str "-usermask",
    str "+bot", str "-bot", str "join", str "part", str "chkey", str "chanmode", str "chanset",
    str "+ban", str "-ban"]

/-- The commands that take a free-form tail. -/
def tailed : List Str :=
  [str "chanmode", str "chanset", str "+ban", str "-ban", str "bans"]

/-- The argument line of a command with a free-form tail. -/
def argLine (cmdLine : Str) : Option Str :=
  let cl := cmdLine.dropWhile (· == byte ' ')
  let verb := cl.takeWhile (· ≠ byte ' ')
  let a := (cl.drop verb.length).dropWhile (· == byte ' ')
  if tailed.any (eqIc · verb) && a.length < sealMaxPlaintext + 1 then some a else none

namespace World

variable (P : Primitives)

/-- A parked command is answered in its chat, if that is still open. -/
def answer (w : World) (i dccToken : Nat) (a2r : A2rCtx) (lines : List Str) : World :=
  if (w.chat i).phase ≠ .opened ∨ (w.chat i).dccToken ≠ dccToken then w
  else
    let w' := lines.foldl (print P) { w with a2r, dccReply := some i }
    { w' with a2r := w.a2r, dccReply := w.dccReply }

def doWork (w : World) : Work → World
  | .print line => w.print P line
  | .answer i dccToken a2r lines => w.answer P i dccToken a2r lines
  | .closeAll reason => w.closeAll reason
  | .outside o => { w with toOutside := o }

/-! ### One command line -/

variable (h : Handler)

/-- A command is handed on. -/
def call (w : World) (c : Call) : World :=
  let w' := { w with calls := w.calls ++ [(w.bot, c)] }
  (h w c).foldl (doWork P) w'

/-- `admin_command`. -/
def adminCommand (w : World) (c : Call) (rnd : Option Nat) : World :=
  match if w.bot.isOptSet optHubOnlyMutations then hubOnlyCmds.find? (eqIc c.command ·) else none with
  | some name =>
      w.say P c.nick (str "Error: '" ++ name ++ str "' is disabled " ++ UserCommands.emDash ++
        str " network is in hub-only-mutation mode (opt 'h'). Use the hub console.")
  | none =>
      if c.command.map lower = str "dcc" then
        if w.dccReply.isSome then w.say P c.nick (str "You are already in a DCC chat with me.")
        else w.offer P c.nick c.userHost c.who rnd
      else w.call P h c

/-- `botflood::cmd`: `flood cmd` for the record `who`. -/
def floodCmd (w : World) (who : Nat) (nick : Str) : Botflood.Bf × World :=
  match w.bot.userRecords[who]? with
  | none => (.ok, w)
  | some u =>
      let r := Botflood.cmdAt w.bot w.flood u.uuid w.bot.monoMs
      let w := { w with flood := r.2 }
      let w :=
        if r.1.1 = .drop ∧ r.1.2 = true then
          w.say P nick (str "Slow down: too many commands, some were dropped.")
        else w
      let w :=
        if r.1.1 = .ignoreNew then
          { w with bot := Botflood.emitIgnore w.bot u.name (str "command flood, ignored " ++
              dec (Chancfg.get w.bot none .ignoreTime) ++ str " min") }
        else w
      (r.1.1, w)

/-- `run_user_command`. -/
def runUserCommand (w : World) (nick userHost : Str) (who : Nat) (cmdLine : Str)
    (rnd : Option Nat) : World :=
  let line := argLine cmdLine
  match toks 4 cmdLine, w.bot.userRecords[who]? with
  | command :: args, some u =>
      if u.typ ≠ byte 'a' ∧ u.typ ≠ byte 'o' then w
      else
        let (verdict, w) := w.floodCmd P who nick
        if verdict ≠ .ok then w
        else if (command :: args ++ line.toList).any (·.contains (byte '|')) then
          w.say P nick (str "Error: '|' is not allowed in commands.")
        else
          let c : Call := { nick, userHost, who, admin := u.typ == byte 'a', command, args, line }
          if u.typ = byte 'a' then w.adminCommand P h c rnd else w.call P h c
  | _, _ => w

/-- `a2_dispatch`: the replies to ~A2S are sealed while the command runs. -/
def a2Dispatch (w : World) (nick userHost botnick : Str) (o : Opened) (rnd : Option Nat) : World :=
  let ctx : Option A2rCtx :=
    match o.rk with
    | none => some w.a2r
    | some key =>
        ((Envelope.a2Context (a2NickMax * 2 + 16) a2rLabel botnick nick none).filter
          fun _ => decide (nick.length < a2NickMax)).map fun aad =>
            { active := true, key, aad, nick, seq := 0 }
  match ctx with
  | none => { w with a2r := {} }
  | some a2r => { ({ w with a2r }).runUserCommand P h nick userHost o.who o.cmd rnd with a2r := {} }

/-! ### Where a command line comes from -/

/-- `handle_dcc_line`: false means that the chat must be closed. -/
def handleDccLine (w : World) (i : Nat) (line : Str) : Bool × World :=
  let s := w.chat i
  let isSealed := (str "~A2S ").isPrefixOf line
  if !isSealed && !(str "~A2 ").isPrefixOf line then (false, w)
  else
    let r := a2OpenCommand P w.bot s.nick s.userHost s.botnick (some s.uuid)
      (line.drop (if isSealed then 5 else 4)) isSealed
    let w := { w with bot := r.2 }
    match r.1 with
    | none => (false, w)
    | some (_, _, o) =>
        match w.bot.userRecords[o.who]? with
        | none => (false, w)
        | some u =>
            if u.typ ≠ byte 'a' then (false, w)
            else
              let w := w.modifyChat i fun s => { s with lastActive := w.bot.now }
              let w := w.note i (.ran u o.cmd)
              let w := { w with dccReply := some i }
              let w := w.a2Dispatch P h s.nick s.userHost s.botnick o none
              (true, { w with dccReply := if w.dccReply = some i then none else w.dccReply })

/-- `handle_private_message` of a sealed command, past what is not: the frame is opened, and a
command runs. -/
def sealedMessage (w : World) (nick userHost dest message : Str) (rnd : Option Nat) : World :=
  let isSealed := (str "~A2S ").isPrefixOf message
  if !isSealed && !(str "~A2 ").isPrefixOf message then w
  else
    let r := a2OpenCommand P w.bot nick userHost dest none
      (message.drop (if isSealed then 5 else 4)) isSealed
    let w := { w with bot := r.2 }
    match r.1 with
    | none => w
    | some (_, _, o) => w.a2Dispatch P h nick userHost dest o rnd

end World

/-! ### Who is behind a command -/

/-- An active mask of the user's matches the host. -/
def Masked (b : BotState) (u : UserRecord) (userHost : Str) : Prop :=
  ∃ m ∈ b.maskRecords, m.isActive = true ∧ m.uuid = u.uuid ∧
    Masks.wildcardMatch m.mask userHost = true

/-- A candidate is an active user, and a mask of the user matches. -/
theorem masked_of_candidate {b : BotState} {userHost : Str} {p : Nat × Nat}
    (hp : p ∈ Auth.userCandidates b userHost) :
    ∃ u, b.userRecords[p.1]? = some u ∧ u.isActive = true ∧ Masked b u userHost := by
  rw [SealedCommand.userCandidates_eq] at hp
  have hfold : ∀ (l : List (MaskRecord × Nat)) out, (∀ m ∈ l, m.1 ∈ b.maskRecords) →
      (∀ q ∈ out, ∃ u, b.userRecords[q.1]? = some u ∧ u.isActive = true ∧ Masked b u userHost) →
      ∀ q ∈ l.foldl (SealedCommand.candidateStep b userHost) out,
        ∃ u, b.userRecords[q.1]? = some u ∧ u.isActive = true ∧ Masked b u userHost := by
    intro l
    induction l with
    | nil => exact fun out _ hout => hout
    | cons m l ih =>
        intro out hl hout
        refine ih _ (fun m' hm' => hl m' (List.mem_cons_of_mem m hm')) fun q hq => ?_
        unfold SealedCommand.candidateStep at hq
        split at hq
        · exact hout q hq
        · split at hq
          · rename_i ui howner
            split at hq
            · exact hout q hq
            · rcases List.mem_append.mp hq with hq | hq
              · exact hout q hq
              · obtain rfl := List.mem_singleton.mp hq
                unfold SealedCommand.ownerOf at howner
                split at howner
                · cases howner
                · rename_i hmask
                  obtain ⟨hlt, huser, -⟩ := List.findIdx?_eq_some_iff_getElem.mp howner
                  simp only [Bool.or_eq_true, Bool.not_eq_true', not_or, Bool.not_eq_false] at hmask
                  simp only [Bool.and_eq_true, beq_iff_eq] at huser
                  exact ⟨_, List.getElem?_eq_getElem hlt, huser.1.1, m.1, hl m List.mem_cons_self,
                    hmask.1.1, huser.2.symm, hmask.2⟩
          · exact hout q hq
  refine hfold _ [] (fun m hm => ?_) (fun q hq => absurd hq List.not_mem_nil) p hp
  exact (List.mem_zipIdx' hm).2 ▸ List.getElem_mem _

theorem a2TryKeys_who {P : Primitives} {b : BotState} {x userHost : Str} {onlyUuid : Option Str}
    {label aad frame : Str} {isSealed : Bool} {who whoMask : Nat} {pt : Str} {rk : Option Str}
    (h : a2TryKeys P b x userHost onlyUuid label aad frame isSealed = some (who, whoMask, pt, rk)) :
    ∃ u, b.userRecords[who]? = some u ∧ u.isActive = true ∧ (∀ y ∈ onlyUuid, u.uuid = y) ∧
      Masked b u userHost := by
  obtain ⟨p, hp, hopen⟩ := List.exists_of_findSome?_eq_some h
  obtain ⟨u, hu, hactive, hmask⟩ := masked_of_candidate hp
  simp only [hu, Option.bind_eq_bind, Option.bind_some] at hopen
  split at hopen
  · cases hopen
  · rename_i honly
    obtain ⟨upub, -, hopen⟩ := Option.bind_eq_some_iff.mp hopen
    obtain ⟨r, -, hopen⟩ := Option.bind_eq_some_iff.mp hopen
    cases hopen
    refine ⟨u, hu, hactive, fun y hy => ?_, hmask⟩
    by_contra hne
    refine honly ?_
    rw [Option.mem_def.mp hy]
    simpa using fun heq : y = u.uuid => hne heq.symm

/-- Noting that a user was active does not change who it is. -/
theorem masked_same {b b' : BotState} (h : SameButActivity b b') {i : Nat} {u : UserRecord}
    {userHost : Str} (hu : b.userRecords[i]? = some u) (hmask : Masked b u userHost) :
    ∃ u', b'.userRecords[i]? = some u' ∧ u'.uuid = u.uuid ∧ u'.isActive = u.isActive ∧
      Masked b' u' userHost := by
  have huser := congrArg (·[i]?) h.users
  simp only [List.getElem?_map, hu, Option.map_some] at huser
  obtain ⟨u', hu', heq⟩ := Option.map_eq_some_iff.mp huser
  simp only [Prod.mk.injEq] at heq
  refine ⟨u', hu', heq.1, heq.2.1, ?_⟩
  obtain ⟨m, hm, hactive, huuid, hmatch⟩ := hmask
  obtain ⟨j, hj⟩ := List.mem_iff_getElem?.mp hm
  have hmasks := congrArg (·[j]?) h.masks
  simp only [List.getElem?_map, hj, Option.map_some] at hmasks
  obtain ⟨m', hm', hsame⟩ := Option.map_eq_some_iff.mp hmasks
  simp only [Prod.mk.injEq] at hsame
  refine ⟨m', List.mem_of_getElem? hm', hsame.2.2.1.trans hactive, ?_, ?_⟩
  · rw [hsame.1, huuid, heq.1]
  · rw [hsame.2.1]
    exact hmatch

/-- Who is behind a command that was opened: an active user of whom a mask matches, and the only one
asked for. -/
def Behind (userHost : Str) (onlyUuid : Option Str)
    (r : Option (Int × UInt64 × Opened) × BotState) : Prop :=
  ∀ ts nonce o, r.1 = some (ts, nonce, o) → ∃ u, r.2.userRecords[o.who]? = some u ∧
    u.isActive = true ∧ (∀ y ∈ onlyUuid, u.uuid = y) ∧ Masked r.2 u userHost

theorem behind_none (userHost : Str) (onlyUuid : Option Str) (b : BotState) :
    Behind userHost onlyUuid (none, b) := by
  intro ts nonce o h
  cases h

theorem behind_some {b : BotState} {userHost : Str} {onlyUuid : Option Str} {u : UserRecord}
    {o : Opened} (hu : b.userRecords[o.who]? = some u) (hactive : u.isActive = true)
    (honly : ∀ y ∈ onlyUuid, u.uuid = y) (hmask : Masked b u userHost)
    (nonces : NonceCache maxSeenHashes) (env : Int × UInt64) (whoMask : Nat) (now : Int) :
    Behind userHost onlyUuid (some (env.1, env.2, o),
      markUsed { b with adminNonces := nonces } (some o.who) (some whoMask) now) := by
  intro ts nonce o' h
  cases h
  obtain ⟨u', hu', huuid, hactive', hmask'⟩ := masked_same (b := { b with adminNonces := nonces })
    (sameButActivity_markUsed _ _ _ now) hu hmask
  exact ⟨u', hu', hactive'.trans hactive, fun y hy => huuid.trans (honly y hy), hmask'⟩

theorem behind_a2OpenCommand (P : Primitives) (b : BotState) (nick userHost dest : Str)
    (onlyUuid : Option Str) (b64 : Str) (isSealed : Bool) :
    Behind userHost onlyUuid (a2OpenCommand P b nick userHost dest onlyUuid b64 isSealed) := by
  unfold a2OpenCommand
  dsimp only
  generalize (if (Auth.userCandidates b userHost).isEmpty then (none, b)
    else Envelope.botKeyDecode P b) = r
  obtain ⟨key, b'⟩ := r
  dsimp only
  split
  · exact behind_none _ _ _
  · split
    · split
      · exact behind_none _ _ _
      · split
        · exact behind_none _ _ _
        · rename_i htry
          split
          · exact behind_none _ _ _
          · split
            · exact behind_none _ _ _
            · split
              · exact behind_none _ _ _
              · split
                · exact behind_none _ _ _
                · obtain ⟨k, -, htry⟩ := Option.bind_eq_some_iff.mp htry
                  obtain ⟨u, hu, hactive, honly, hmask⟩ := a2TryKeys_who htry
                  exact behind_some (o := ⟨_, _, _⟩) hu hactive honly hmask _ (_, _) _ _
    · exact behind_none _ _ _

end IrcBot.DccChats
