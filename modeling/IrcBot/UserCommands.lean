/-
# Commands about users and bots (`commands.rs`)

An admin adds and removes admins, opers and their masks, changes keys, and renames
users and bots; without a hub also the trusted bots are the admin's. An oper may change
the own key. What these commands touch is the `Directory`; each has one lemma that says
what it can do to it.

* `Run` — any commands, one after the other, with whatever happens in between.
-/
import IrcBot.Channel

namespace IrcBot.UserCommands

open Cstr Crypto HubPush B2

variable (P : Primitives)

/-! ### Replies and checks -/

/-- The arguments of a command; `line` is all of them, for those with a free tail. -/
structure Args where
  a1 : Option Str := none
  a2 : Option Str := none
  a3 : Option Str := none
  line : Option Str := none

/-- `say`. -/
def say (b : BotState) (nick text : Str) : BotState :=
  ircPrintf b (str "PRIVMSG " ++ nick ++ str " :" ++ text ++ crlf)

/-- One check, and what it says if it fails. -/
def check (ok : Bool) (e : Str) : Except Str Unit := if ok then .ok () else .error e

section

variable {α β : Type}

@[simp] theorem bind_eq_ok {x : Except Str α} {f : α → Except Str β} {y : β} :
    (x >>= f) = .ok y ↔ ∃ a, x = .ok a ∧ f a = .ok y := by
  cases x with
  | error e =>
      constructor
      · intro h
        cases h
      · rintro ⟨a, ⟨⟩, -⟩
  | ok a =>
      constructor
      · intro h
        exact ⟨a, rfl, h⟩
      · rintro ⟨a', ⟨⟩, h⟩
        exact h

end

@[simp] theorem check_eq_ok {ok : Bool} {e : Str} {x : Unit} : check ok e = .ok x ↔ ok = true := by
  cases ok <;> simp [check]

/-- A name in quotes. -/
def quoted (s : Str) : Str := str "'" ++ s ++ str "'"

/-- The dash of the texts, in UTF-8. -/
def emDash : Str := [0xE2, 0x80, 0x94]

/-- `nick!user@host`, as far as it is checked. -/
def maskShaped (mask : Str) : Bool := mask.contains (byte '!') && mask.contains (byte '@')

/-! ### Keys -/

/-- `key_fingerprint`: the first 8 bytes of the hash, as in "ab12:cd34:ef56:7890". -/
def keyFingerprint (pubKey : Str) : Str :=
  let h := P.sha256 pubKey
  let pair (i : Nat) : Str := ((h.drop (2 * i)).take 2).flatMap hexByte
  pair 0 ++ str ":" ++ pair 1 ++ str ":" ++ pair 2 ++ str ":" ++ pair 3

/-- `user_key_fp`. -/
def userKeyFp (u : UserRecord) : Str :=
  match (pubkeyB64Decode P u.pubkeyB64).filter fun _ => u.hasPubkey with
  | some key => keyFingerprint P key
  | none => str "(no key)"

/-- The active user, other than `me`, who has the key. -/
def keyOwner (b : BotState) (key : Str) (me : Option Nat) : Option UserRecord :=
  (b.userRecords.zipIdx.find? fun (o, i) =>
    some i != me && o.isActive && o.hasPubkey && o.pubkeyB64 == key).map (·.1)

/-- `user_key_arg_ok`: the key, if it is one and nobody else's. -/
def userKeyArgOk (b : BotState) (key : Str) (me : Option Nat) (cmdname : Str) : Except Str Str := do
  check (pubkeyB64Decode P key).isSome
    (str "Error: " ++ cmdname ++ str " needs the user's public key " ++ emDash ++
      str " the 88-char contents of their <ts>_<name>.public.b64. Ask them for it; 'help " ++
      cmdname ++ str "' shows how they make one.")
  match keyOwner b key me with
  | some owner =>
      .error (str "Error: that key already belongs to " ++ quoted owner.name ++
        str ". Each user needs their own keypair.")
  | none => .ok key

/-- A user's record with a new key. -/
def withKey (now : Int) (key : Str) (u : UserRecord) : UserRecord :=
  { u with pubkeyB64 := key, hasPubkey := true, timestamp := lwwNextTs now u.timestamp
           lastAuthReply := 0 }

/-- `set_user_key`. -/
def setUserKey (b : BotState) (ui : Nat) (key : Str) : BotState :=
  pushAdminDelta (writeConfig { b with userRecords := b.userRecords.modify ui (withKey b.now key) })

/-- The first active user of a name. -/
def userByName (b : BotState) (name : Str) : Option Nat :=
  b.userRecords.findIdx? fun u => u.isActive && eqIc u.name name

/-- `chkey` of an admin, for a user. -/
def chkey (b : BotState) (nick : Str) (a : Args) : BotState :=
  match a.a1, a.a2 with
  | some name, some key =>
      match userByName b name with
      | none => say b nick (str "Error: user " ++ quoted name ++ str " not found.")
      | some ui =>
          match userKeyArgOk P b key (some ui) (str "chkey") with
          | .error e => say b nick e
          | .ok key =>
              let b := setUserKey b ui key
              match b.userRecords[ui]? with
              | none => b
              | some u =>
                  say b nick (str "Key for " ++ u.name ++ str " changed (key " ++ userKeyFp P u ++
                    str "). They must use the new private key from now on.")
  | _, _ => say b nick (str "Syntax: chkey <name> <pubkey>")

/-- `chkey` of an oper: the own key only. -/
def ownChkey (b : BotState) (nick : Str) (who : Nat) (a : Args) : BotState :=
  if b.isOptSet optHubOnlyMutations then
    say b nick (str "Error: 'chkey' is disabled " ++ emDash ++
      str " network is in hub-only-mutation mode (opt 'h'). Ask a hub admin.")
  else
    match a.a1, a.a2 with
    | some name, some key =>
        match b.userRecords[who]? with
        | none => b
        | some me =>
            if !eqIc me.name name then
              say b nick (str "Error: opers may only change their own key.")
            else
              match userKeyArgOk P b key (some who) (str "chkey") with
              | .error e => say b nick e
              | .ok key =>
                  let b := setUserKey b who key
                  match b.userRecords[who]? with
                  | none => b
                  | some u =>
                      say b nick (str "Your key has been changed (key " ++ userKeyFp P u ++
                        str "). Use the new private key from now on.")
    | _, _ => say b nick (str "Syntax: chkey <yourname> <pubkey>")

/-! ### Users -/

/-- `gen_uuid_v4`. -/
def genUuidV4 (b : BotState) : Option Str :=
  (P.randomBytes b.monoMs 16).map fun r =>
    let r := (r.modify 6 fun x => (x &&& 0x0F) ||| 0x40).modify 8 fun x => (x &&& 0x3F) ||| 0x80
    let hex (i n : Nat) : Str := ((r.drop i).take n).flatMap hexByte
    hex 0 4 ++ str "-" ++ hex 4 2 ++ str "-" ++ hex 6 2 ++ str "-" ++ hex 8 2 ++ str "-" ++ hex 10 6

/-- What +admin and +oper check, and the records they add. -/
def newUser (b : BotState) (addAdmin : Bool) (a : Args) : Except Str (UserRecord × MaskRecord) :=
  let what := if addAdmin then str "+admin" else str "+oper"
  match a.a1, a.a2, a.a3 with
  | some name, some key, some mask => do
      check (name.length ≤ 63) (str "Error: name too long (max 63).")
      check (maskShaped mask && mask.length < maxMaskLen)
        (str "Error: mask must be nick!user@host (max " ++ decNat (maxMaskLen - 1) ++ str " chars)")
      check (userByName b name).isNone (str "Error: name " ++ quoted name ++ str " already exists.")
      let key ← userKeyArgOk P b key none what
      check (b.userRecords.length < maxUserRecords) (str "Error: user record table full.")
      check (b.maskRecords.length < maxUserMasks) (str "Error: mask table full.")
      match genUuidV4 P b with
      | none => .error (str "Error: RNG failure.")
      | some uuid =>
          .ok
            ({ uuid, name, pubkeyB64 := key, hasPubkey := true
               typ := if addAdmin then byte 'a' else byte 'o', isActive := true,
               timestamp := b.now },
              { uuid, mask, isActive := true, timestamp := b.now })
  | _, _, _ =>
      .error (str "Syntax: " ++ what ++
        str " <name> <pubkey> <nick!user@host> - <pubkey> is the user's 88-char public key. " ++
        str "Ask them for it; 'help " ++ what ++ str "' shows how they make one.")

/-- `cmd_add_user`: +admin and +oper. -/
def cmdAddUser (b : BotState) (nick : Str) (addAdmin : Bool) (a : Args) : BotState :=
  match newUser P b addAdmin a with
  | .error e => say b nick e
  | .ok (u, m) =>
      say (pushAdminDelta (writeConfig { b with
        userRecords := b.userRecords ++ [u], maskRecords := b.maskRecords ++ [m] })) nick
        ((if addAdmin then str "Admin " else str "Oper ") ++ quoted u.name ++
          str " added with mask " ++ m.mask ++ str " (key " ++ userKeyFp P u ++ str ")")

/-- A record that is deleted, past its stamp. -/
def buriedUser (now : Int) (u : UserRecord) : UserRecord :=
  { u with isActive := false, timestamp := lwwNextTs now u.timestamp }

def buriedMask (now : Int) (m : MaskRecord) : MaskRecord :=
  { m with isActive := false, timestamp := lwwNextTs now m.timestamp }

/-- `cmd_del_user`: -admin and -oper. -/
def cmdDelUser (b : BotState) (nick : Str) (typ : UInt8) (a : Args) : BotState :=
  let what := if typ == byte 'a' then str "admin" else str "oper"
  match a.a1 with
  | none => say b nick (str "Syntax: -" ++ what ++ str " <name>")
  | some name =>
      match b.userRecords.findIdx? fun u => u.isActive && u.typ == typ && eqIc u.name name with
      | none => say b nick (str "Error: " ++ what ++ str " " ++ quoted name ++ str " not found.")
      | some ui =>
          match b.userRecords[ui]? with
          | none => b
          | some u =>
              let b := pushAdminDelta (writeConfig { b with
                userRecords := b.userRecords.modify ui (buriedUser b.now)
                maskRecords := b.maskRecords.map fun m =>
                  if m.uuid == u.uuid then buriedMask b.now m else m })
              say b nick ((if typ == byte 'a' then str "Admin " else str "Oper ") ++ quoted name ++
                str " and all their masks removed.")

/-! ### Masks of users -/

/-- The place of the last tombstone of a mask, or none if it is active. -/
def maskTomb (b : BotState) (uuid mask : Str) : Except Str (Option Nat) :=
  let hits := b.maskRecords.zipIdx.filter fun (m, _) => m.uuid == uuid && eqIc m.mask mask
  if hits.any (·.1.isActive) then .error (str "Error: mask already exists.")
  else .ok (hits.getLast?.map (·.2))

/-- A mask that is back, past its stamp. -/
def revivedMask (now : Int) (m : MaskRecord) : MaskRecord :=
  { m with isActive := true, timestamp := lwwNextTs now m.timestamp }

/-- `cmd_add_usermask`. A tombstone is revived past its stamp, so that the add cannot tie
the remove. -/
def cmdAddUsermask (b : BotState) (nick : Str) (a : Args) : BotState :=
  match a.a1, a.a2 with
  | some name, some mask =>
      if !maskShaped mask then say b nick (str "Error: mask must contain ! and @")
      else
        match (userByName b name).bind fun ui => b.userRecords[ui]? with
        | none => say b nick (str "Error: user " ++ quoted name ++ str " not found.")
        | some u =>
            let done (masks : List MaskRecord) : BotState :=
              say (pushAdminDelta (writeConfig { b with maskRecords := masks })) nick
                (str "Mask " ++ mask ++ str " added to " ++ name)
            match maskTomb b u.uuid mask with
            | .error e => say b nick e
            | .ok (some i) => done (b.maskRecords.modify i (revivedMask b.now))
            | .ok none =>
                if maxUserMasks ≤ b.maskRecords.length then say b nick (str "Error: mask table full.")
                else
                  done (b.maskRecords ++
                    [{ uuid := u.uuid, mask := trunc mask maxMaskLen, isActive := true
                       timestamp := b.now }])
  | _, _ => say b nick (str "Syntax: +usermask <name> <nick!user@host>")

/-- `cmd_del_usermask`. -/
def cmdDelUsermask (b : BotState) (nick : Str) (a : Args) : BotState :=
  match a.a1, a.a2 with
  | some name, some mask =>
      match (userByName b name).bind fun ui => b.userRecords[ui]? with
      | none => say b nick (str "Error: user " ++ quoted name ++ str " not found.")
      | some u =>
          match b.maskRecords.findIdx? fun m =>
              m.isActive && m.uuid == u.uuid && eqIc m.mask mask with
          | none =>
              say b nick (str "Error: mask " ++ quoted mask ++ str " not found for " ++ name ++ str ".")
          | some mi =>
              say (pushAdminDelta (writeConfig { b with
                maskRecords := b.maskRecords.modify mi (buriedMask b.now) })) nick
                (str "Mask " ++ mask ++ str " removed from " ++ name)
  | _, _ => say b nick (str "Syntax: -usermask <name> <mask>")

/-! ### Bots -/

/-- Without a hub only; the list is the hub's otherwise. -/
def botsLocal (b : BotState) : Except Str Unit :=
  check b.hubs.isEmpty (str "Error: Bot management disabled when hub is configured. " ++
    str "Bot additions/deletions must be performed on the hub.")

/-- What +bot checks, and the entry it adds. -/
def newBot (b : BotState) (a : Args) : Except Str TrustedBot := do
  botsLocal b
  match a.a1, a.a2, a.a3 with
  | some mask, some uuid, some key => do
      check (mask.length < maxMaskLen && maskShaped mask)
        (str "Error: mask must be nick!user@host (max " ++ decNat (maxMaskLen - 1) ++ str " chars).")
      check (hasUuidDashes uuid) (str "Error: " ++ quoted uuid ++ str " is not a bot UUID.")
      match pubkeyB64Decode P key with
      | none =>
          .error
            (str "Error: pubkey must be the bot's 88-char public key (Pubkey line of its 'status').")
      | some pubKey => do
          check (uuid != b.botUuid) (str "Error: that is this bot.")
          check (!b.trustedBots.any fun t => eqIc t.mask mask || t.uuid == uuid)
            (str "Error: Trusted bot " ++ quoted mask ++
              str " already exists (same mask or UUID). Remove it with -bot first.")
          check (b.trustedBots.length < maxTrustedBots) (str "Error: trusted bot list is full.")
          .ok { mask, uuid, pubKey, hasPub := true, ts := b.now }
  | _, _, _ =>
      .error (str "Syntax: +bot <nick!user@host> <uuid> <pubkey> - copy the UUID and Pubkey lines " ++
        str "from that bot's 'status'.")

/-- `cmd_add_bot`. -/
def cmdAddBot (b : BotState) (nick : Str) (a : Args) : BotState :=
  match newBot P b a with
  | .error e => say b nick e
  | .ok tb =>
      say (writeConfig { b with trustedBots := b.trustedBots ++ [tb] }) nick
        (str "Added trusted bot: " ++ tb.mask ++ str " (key " ++ keyFingerprint P tb.pubKey ++ str ")")

/-- `cmd_del_bot`. -/
def cmdDelBot (b : BotState) (nick : Str) (a : Args) : BotState :=
  match botsLocal b, a.a1 with
  | .error e, _ => say b nick e
  | .ok (), none => say b nick (str "Syntax: -bot <nick*!*user@hostmask.com>")
  | .ok (), some mask =>
      match b.trustedBots.findIdx? fun t => eqIc t.mask mask with
      | some i =>
          say (writeConfig { b with trustedBots := b.trustedBots.eraseIdx i }) nick
            (str "Removed trusted bot: " ++ mask)
      | none =>
          say b nick (str "Error: no trusted bot with mask " ++ quoted mask ++ str " (see 'status').")

/-! ### Names -/

/-- The checks of `cmd_chnick` on the new name: names are unique across bots, admins and
opers. -/
def newNameOk (b : BotState) (new : Str) : Except Str Unit := do
  check (isValidBotNick new)
    (if new.contains (byte '|') then str "Error: New nick cannot contain '|'."
      else str "Error: New nick too long (max " ++ decNat (maxNick - 1) ++ str " chars).")
  check (userByName b new).isNone (str "Error: Name " ++ quoted new ++ str " already in use.")
  check (!eqIc b.targetNick new)
    (str "Error: Name " ++ quoted new ++ str " already in use by this bot.")
  check (!b.trustedBots.any fun t => eqIc t.nick new)
    (str "Error: Name " ++ quoted new ++ str " already in use by a bot.")

/-- A mask with another nick in front. -/
def renamedMask (mask new : Str) : Str := new ++ mask.dropWhile (· ≠ byte '!')

/-- A renamed user. -/
def renamedUser (now : Int) (new : Str) (u : UserRecord) : UserRecord :=
  { u with name := new, timestamp := lwwNextTs now u.timestamp }

/-- A renamed bot. -/
def renamedBot (now : Int) (new : Str) (tb : TrustedBot) : TrustedBot :=
  { tb with mask := renamedMask tb.mask new, ts := now }

/-- `cmd_chnick`, once the new name is free: the bot's own target nick, an admin or oper, or
a trusted bot. A bot's new name is its nick on IRC, so it must be one the server takes. -/
def rename (b : BotState) (nick old new : Str) : BotState :=
  let rfcError := str "Error: " ++ quoted new ++ str " is not a valid IRC nick: a letter or one of " ++
    str "[]\\`_^\x7b\x7d first, then letters, digits, those or '-'."
  if eqIc b.targetNick old then
    if !isRfcNick new then say b nick rfcError
    else
      let b := writeConfig { b with targetNick := new, currentNickTs := b.now }
      say (pushDelta b (str "n") new b.currentNickTs).2 nick
        (str "This bot's nick changed to " ++ quoted new ++ str " and saved.")
  else
    match userByName b old with
    | some ui =>
        say (pushAdminDelta (writeConfig { b with
          userRecords := b.userRecords.modify ui (renamedUser b.now new) })) nick
          (str "User " ++ quoted old ++ str " renamed to " ++ quoted new ++ str ".")
    | none =>
        match b.trustedBots.findIdx? fun t => eqIc t.nick old with
        | none => say b nick (str "Error: No bot/admin/oper named " ++ quoted old ++ str " found.")
        | some ti =>
            match b.trustedBots[ti]? with
            | none => b
            | some tb =>
                if !isRfcNick new then say b nick rfcError
                else if maxMaskLen ≤ (renamedMask tb.mask new).length then
                  say b nick (str "Error: resulting mask too long.")
                else
                  -- notify first: the SETNICK is addressed by the old nick
                  let b := sendCommand P b old (str "SETNICK " ++ new)
                  say (writeConfig { b with
                    trustedBots := b.trustedBots.modify ti (renamedBot b.now new) }) nick
                    (str "Bot " ++ quoted old ++ str " renamed to " ++ quoted new ++
                      str " and notified.")

/-- `cmd_chnick`. -/
def cmdChnick (b : BotState) (nick : Str) (a : Args) : BotState :=
  match a.a1, a.a2 with
  | some old, some new =>
      match newNameOk b new with
      | .error e => say b nick e
      | .ok () => rename P b nick old new
  | _, _ => say b nick (str "Syntax: chnick <oldnick> <newnick>")

/-! ### The directory -/

/-- The records about people and bots, and the bot's own name. -/
structure Directory where
  users : List UserRecord
  masks : List MaskRecord
  bots : List TrustedBot
  targetNick : Str

def directory (b : BotState) : Directory :=
  ⟨b.userRecords, b.maskRecords, b.trustedBots, b.targetNick⟩

theorem directory_of_push {b b' : BotState} (h : SameButPush b b') :
    directory b' = directory b := by
  rw [h.eq]
  rfl

@[simp] theorem directory_say (b : BotState) (nick text : Str) :
    directory (say b nick text) = directory b := by
  obtain ⟨out, h, -⟩ := ircPrintf_eq b (str "PRIVMSG " ++ nick ++ str " :" ++ text ++ crlf)
  rw [say, h]
  rfl

@[simp] theorem directory_writeConfig (b : BotState) : directory (writeConfig b) = directory b :=
  directory_of_push (sameButPush_writeConfig b)

@[simp] theorem directory_pushAdminDelta (b : BotState) :
    directory (pushAdminDelta b) = directory b :=
  directory_of_push (sameButPush_pushAdminDelta b)

@[simp] theorem directory_pushDelta (b : BotState) (key value : Str) (ts : Int) :
    directory (pushDelta b key value ts).2 = directory b :=
  directory_of_push (sameButPush_pushDelta b key value ts)

/-- Nobody but `me` has the key, and it is one. -/
structure KeyFree (d : Directory) (me : Option Nat) (key : Str) : Prop where
  decodes : (pubkeyB64Decode P key).isSome
  free : ∀ i o, d.users[i]? = some o → some i ≠ me → o.isActive = true → o.hasPubkey = true →
    o.pubkeyB64 ≠ key

theorem keyFree_of_ok {b : BotState} {key key' cmdname : Str} {me : Option Nat}
    (h : userKeyArgOk P b key me cmdname = .ok key') :
    key' = key ∧ KeyFree P (directory b) me key := by
  unfold userKeyArgOk at h
  obtain ⟨_, hdecodes, h⟩ := bind_eq_ok.mp h
  cases howner : keyOwner b key me with
  | some owner =>
      rw [howner] at h
      cases h
  | none =>
      rw [howner] at h
      cases h
      refine ⟨rfl, check_eq_ok.mp hdecodes, fun i o ho hme hactive hhas heq => ?_⟩
      have hnone := List.find?_eq_none.mp (Option.map_eq_none_iff.mp howner) (o, i)
        (List.mem_zipIdx_iff_getElem?.mpr ho)
      simp [hme, hactive, hhas, heq] at hnone

/-- The names in use: the bot's own, those of active users, and the trusted bots' nicks. -/
def Directory.names (d : Directory) : List Str :=
  d.targetNick :: ((d.users.filter (·.isActive)).map (·.name) ++ d.bots.map (·.nick))

/-- No name in use is `name`, up to case. -/
def NameFree (d : Directory) (name : Str) : Prop := ∀ x ∈ d.names, eqIc x name = false

theorem userByName_eq_none {b : BotState} {name : Str} (h : (userByName b name).isNone = true) :
    ∀ u ∈ b.userRecords, u.isActive = true → eqIc u.name name = false := by
  intro u hu hactive
  have hnone := List.findIdx?_eq_none_iff.mp (Option.isNone_iff_eq_none.mp h) u hu
  rwa [hactive, Bool.true_and] at hnone

theorem nameFree_of_ok {b : BotState} {new : Str} {x : Unit} (h : newNameOk b new = .ok x) :
    isValidBotNick new = true ∧ NameFree (directory b) new := by
  unfold newNameOk at h
  obtain ⟨_, hvalid, h⟩ := bind_eq_ok.mp h
  obtain ⟨_, huser, h⟩ := bind_eq_ok.mp h
  obtain ⟨_, htarget, hbots⟩ := bind_eq_ok.mp h
  refine ⟨check_eq_ok.mp hvalid, fun x hx => ?_⟩
  rcases List.mem_cons.mp hx with rfl | hx
  · exact Bool.not_eq_true' _ |>.mp (check_eq_ok.mp htarget)
  · rcases List.mem_append.mp hx with hx | hx
    · obtain ⟨u, hu, rfl⟩ := List.mem_map.mp hx
      obtain ⟨hu, hactive⟩ := List.mem_filter.mp hu
      exact userByName_eq_none (check_eq_ok.mp huser) u hu hactive
    · obtain ⟨t, ht, rfl⟩ := List.mem_map.mp hx
      have hany := check_eq_ok.mp hbots
      rw [Bool.not_eq_true', List.any_eq_false] at hany
      exact Bool.eq_false_iff.mpr (hany t ht)

/-- The records that +admin and +oper add are new, and there is room for them. -/
structure NewUser (b : BotState) (a : Args) (u : UserRecord) (m : MaskRecord) : Prop where
  name : a.a1 = some u.name
  uuid : genUuidV4 P b = some u.uuid
  owns : m.uuid = u.uuid
  active : u.isActive = true
  key : KeyFree P (directory b) none u.pubkeyB64
  unnamed : ∀ v ∈ b.userRecords, v.isActive = true → eqIc v.name u.name = false
  users_lt : b.userRecords.length < maxUserRecords
  masks_lt : b.maskRecords.length < maxUserMasks

theorem newUser_of_ok {b : BotState} {addAdmin : Bool} {a : Args} {u : UserRecord} {m : MaskRecord}
    (h : newUser P b addAdmin a = .ok (u, m)) : NewUser P b a u m := by
  unfold newUser at h
  dsimp only at h
  split at h
  · rename_i name key mask ha1 _ _
    obtain ⟨_, _, h⟩ := bind_eq_ok.mp h
    obtain ⟨_, _, h⟩ := bind_eq_ok.mp h
    obtain ⟨_, hname, h⟩ := bind_eq_ok.mp h
    obtain ⟨key', hkey, h⟩ := bind_eq_ok.mp h
    obtain ⟨hsame, hfree⟩ := keyFree_of_ok P hkey
    obtain ⟨_, husers, h⟩ := bind_eq_ok.mp h
    obtain ⟨_, hmasks, h⟩ := bind_eq_ok.mp h
    cases hgen : genUuidV4 P b with
    | none =>
        rw [hgen] at h
        cases h
    | some uuid =>
        rw [hgen] at h
        cases h
        rw [← hsame] at hfree
        exact ⟨ha1, hgen, rfl, rfl, hfree, userByName_eq_none (check_eq_ok.mp hname),
          of_decide_eq_true (check_eq_ok.mp husers), of_decide_eq_true (check_eq_ok.mp hmasks)⟩
  · cases h

/-! ### What a command can do -/

/-- The commands about users and bots. -/
inductive Command where
  | addUser (addAdmin : Bool)
  | delUser (typ : UInt8)
  | addUsermask
  | delUsermask
  | chkey
  | ownChkey (who : Nat)
  | chnick
  | addBot
  | delBot

def Command.exec (b : BotState) (nick : Str) (a : Args) : Command → BotState
  | .addUser addAdmin => cmdAddUser P b nick addAdmin a
  | .delUser typ => cmdDelUser b nick typ a
  | .addUsermask => cmdAddUsermask b nick a
  | .delUsermask => cmdDelUsermask b nick a
  | .chkey => UserCommands.chkey P b nick a
  | .ownChkey who => UserCommands.ownChkey P b nick who a
  | .chnick => cmdChnick P b nick a
  | .addBot => cmdAddBot P b nick a
  | .delBot => cmdDelBot b nick a

/-- What a command can make of the directory `d`. -/
inductive Edit (b : BotState) (a : Args) (d : Directory) : Command → Directory → Prop where
  | stay (c : Command) : Edit b a d c d
  | addUser {addAdmin : Bool} {u : UserRecord} {m : MaskRecord}
      (hnew : newUser P b addAdmin a = .ok (u, m)) :
      Edit b a d (.addUser addAdmin) { d with users := d.users ++ [u], masks := d.masks ++ [m] }
  | delUser {typ : UInt8} {ui : Nat} {u : UserRecord} (hu : d.users[ui]? = some u) :
      Edit b a d (.delUser typ)
        { d with
          users := d.users.modify ui (buriedUser b.now)
          masks := d.masks.map fun m => if m.uuid == u.uuid then buriedMask b.now m else m }
  | revive {u : UserRecord} {i : Nat} (hu : u ∈ d.users) (hactive : u.isActive = true)
      (howned : ∀ m, d.masks[i]? = some m → m.uuid = u.uuid) :
      Edit b a d .addUsermask { d with masks := d.masks.modify i (revivedMask b.now) }
  | addMask {u : UserRecord} {m : MaskRecord} (hu : u ∈ d.users) (hactive : u.isActive = true)
      (howned : m.uuid = u.uuid) (hroom : d.masks.length < maxUserMasks) :
      Edit b a d .addUsermask { d with masks := d.masks ++ [m] }
  | delMask {mi : Nat} :
      Edit b a d .delUsermask { d with masks := d.masks.modify mi (buriedMask b.now) }
  | setKey {c : Command} {ui : Nat} {key : Str} (hkey : KeyFree P d (some ui) key) :
      Edit b a d c { d with users := d.users.modify ui (withKey b.now key) }
  | ownNick {new : Str} (hfree : NameFree d new) : Edit b a d .chnick { d with targetNick := new }
  | renameUser {ui : Nat} {new : Str} (hfree : NameFree d new) :
      Edit b a d .chnick { d with users := d.users.modify ui (renamedUser b.now new) }
  | renameBot {ti : Nat} {new : Str} (hfree : NameFree d new) (hrfc : isRfcNick new = true) :
      Edit b a d .chnick { d with bots := d.bots.modify ti (renamedBot b.now new) }
  | addBot {tb : TrustedBot} (hnew : newBot P b a = .ok tb) :
      Edit b a d .addBot { d with bots := d.bots ++ [tb] }
  | delBot {i : Nat} : Edit b a d .delBot { d with bots := d.bots.eraseIdx i }

theorem directory_setUserKey (b : BotState) (ui : Nat) (key : Str) :
    directory (setUserKey b ui key) =
      { directory b with users := (directory b).users.modify ui (withKey b.now key) } := by
  rw [setUserKey, directory_pushAdminDelta, directory_writeConfig]
  rfl

theorem edit_chkey (b : BotState) (nick : Str) (a : Args) :
    Edit P b a (directory b) .chkey (directory (chkey P b nick a)) := by
  unfold chkey
  split
  · split
    · rw [directory_say]
      exact .stay _
    · split
      · rw [directory_say]
        exact .stay _
      · rename_i key hok
        obtain ⟨rfl, hkey⟩ := keyFree_of_ok P hok
        have hset := directory_setUserKey b ‹Nat› key
        dsimp only
        split
        · rw [hset]
          exact .setKey hkey
        · rw [directory_say, hset]
          exact .setKey hkey
  · rw [directory_say]
    exact .stay _

theorem edit_ownChkey (b : BotState) (nick : Str) (who : Nat) (a : Args) :
    Edit P b a (directory b) (.ownChkey who) (directory (ownChkey P b nick who a)) := by
  unfold ownChkey
  split
  · rw [directory_say]
    exact .stay _
  · split
    · split
      · exact .stay _
      · split
        · rw [directory_say]
          exact .stay _
        · split
          · rw [directory_say]
            exact .stay _
          · rename_i key hok
            obtain ⟨rfl, hkey⟩ := keyFree_of_ok P hok
            have hset := directory_setUserKey b who key
            dsimp only
            split
            · rw [hset]
              exact .setKey hkey
            · rw [directory_say, hset]
              exact .setKey hkey
    · rw [directory_say]
      exact .stay _

theorem edit_cmdAddUser (b : BotState) (nick : Str) (addAdmin : Bool) (a : Args) :
    Edit P b a (directory b) (.addUser addAdmin) (directory (cmdAddUser P b nick addAdmin a)) := by
  unfold cmdAddUser
  split
  · rw [directory_say]
    exact .stay _
  · rename_i u m hnew
    rw [directory_say, directory_pushAdminDelta, directory_writeConfig]
    exact .addUser hnew

theorem edit_cmdDelUser (b : BotState) (nick : Str) (typ : UInt8) (a : Args) :
    Edit P b a (directory b) (.delUser typ) (directory (cmdDelUser b nick typ a)) := by
  unfold cmdDelUser
  dsimp only
  split
  · rw [directory_say]
    exact .stay _
  · split
    · rw [directory_say]
      exact .stay _
    · split
      · exact .stay _
      · rename_i u hu
        rw [directory_say, directory_pushAdminDelta, directory_writeConfig]
        exact .delUser hu

/-- The user that a command about masks names. -/
theorem user_of_name {b : BotState} {name : Str} {u : UserRecord}
    (h : ((userByName b name).bind fun ui => b.userRecords[ui]?) = some u) :
    u ∈ b.userRecords ∧ u.isActive = true := by
  obtain ⟨ui, hui, hu⟩ := Option.bind_eq_some_iff.mp h
  obtain ⟨hlt, hfound, -⟩ := List.findIdx?_eq_some_iff_getElem.mp hui
  obtain ⟨-, rfl⟩ := List.getElem?_eq_some_iff.mp hu
  exact ⟨List.getElem_mem hlt, (Bool.and_eq_true_iff.mp hfound).1⟩

theorem maskTomb_eq_ok {b : BotState} {uuid mask : Str} {i : Nat}
    (h : maskTomb b uuid mask = .ok (some i)) :
    ∀ m, b.maskRecords[i]? = some m → m.uuid = uuid := by
  intro m hm
  unfold maskTomb at h
  dsimp only at h
  split at h
  · cases h
  · obtain ⟨⟨m', j⟩, hlast, rfl⟩ := Option.map_eq_some_iff.mp (Except.ok.inj h)
    obtain ⟨hmem, huuid⟩ := List.mem_filter.mp (List.mem_of_getLast? hlast)
    rw [List.mem_zipIdx_iff_getElem?.mp hmem] at hm
    obtain rfl := Option.some.inj hm
    exact beq_iff_eq.mp (Bool.and_eq_true_iff.mp huuid).1

theorem edit_cmdAddUsermask (b : BotState) (nick : Str) (a : Args) :
    Edit P b a (directory b) .addUsermask (directory (cmdAddUsermask b nick a)) := by
  unfold cmdAddUsermask
  dsimp only
  split
  · split
    · rw [directory_say]
      exact .stay _
    · split
      · rw [directory_say]
        exact .stay _
      · rename_i u hfound
        obtain ⟨hu, hactive⟩ := user_of_name hfound
        split
        · rw [directory_say]
          exact .stay _
        · rename_i i htomb
          rw [directory_say, directory_pushAdminDelta, directory_writeConfig]
          exact .revive hu hactive (maskTomb_eq_ok htomb)
        · split
          · rw [directory_say]
            exact .stay _
          · rename_i hroom
            rw [directory_say, directory_pushAdminDelta, directory_writeConfig]
            exact .addMask hu hactive rfl (Nat.lt_of_not_le hroom)
  · rw [directory_say]
    exact .stay _

theorem edit_cmdDelUsermask (b : BotState) (nick : Str) (a : Args) :
    Edit P b a (directory b) .delUsermask (directory (cmdDelUsermask b nick a)) := by
  unfold cmdDelUsermask
  split
  · split
    · rw [directory_say]
      exact .stay _
    · split
      · rw [directory_say]
        exact .stay _
      · rw [directory_say, directory_pushAdminDelta, directory_writeConfig]
        exact .delMask
  · rw [directory_say]
    exact .stay _

theorem edit_cmdChnick (b : BotState) (nick : Str) (a : Args) :
    Edit P b a (directory b) .chnick (directory (cmdChnick P b nick a)) := by
  unfold cmdChnick
  split
  · rename_i old new _ _
    split
    · rw [directory_say]
      exact .stay _
    · rename_i hok
      obtain ⟨-, hfree⟩ := nameFree_of_ok hok
      unfold rename
      dsimp only
      split
      · split
        · rw [directory_say]
          exact .stay _
        · rw [directory_say, directory_pushDelta, directory_writeConfig]
          exact .ownNick hfree
      · split
        · rw [directory_say, directory_pushAdminDelta, directory_writeConfig]
          exact .renameUser hfree
        · split
          · rw [directory_say]
            exact .stay _
          · split
            · exact .stay _
            · split
              · rw [directory_say]
                exact .stay _
              · rename_i hrfc
                split
                · rw [directory_say]
                  exact .stay _
                · have hsent := Channel.sameButService_sendCommand P b old (str "SETNICK " ++ new)
                  rw [directory_say, directory_writeConfig, hsent.eq]
                  exact .renameBot hfree (by simpa using hrfc)
  · rw [directory_say]
    exact .stay _

theorem edit_cmdAddBot (b : BotState) (nick : Str) (a : Args) :
    Edit P b a (directory b) .addBot (directory (cmdAddBot P b nick a)) := by
  unfold cmdAddBot
  split
  · rw [directory_say]
    exact .stay _
  · rename_i tb hnew
    rw [directory_say, directory_writeConfig]
    exact .addBot hnew

theorem edit_cmdDelBot (b : BotState) (nick : Str) (a : Args) :
    Edit P b a (directory b) .delBot (directory (cmdDelBot b nick a)) := by
  unfold cmdDelBot
  split
  · rw [directory_say]
    exact .stay _
  · rw [directory_say]
    exact .stay _
  · split
    · rw [directory_say, directory_writeConfig]
      exact .delBot
    · rw [directory_say]
      exact .stay _

/-- **Every command is an edit of the directory.** -/
theorem edit_exec (b : BotState) (nick : Str) (a : Args) (c : Command) :
    Edit P b a (directory b) c (directory (c.exec P b nick a)) := by
  cases c with
  | addUser addAdmin => exact edit_cmdAddUser P b nick addAdmin a
  | delUser typ => exact edit_cmdDelUser P b nick typ a
  | addUsermask => exact edit_cmdAddUsermask P b nick a
  | delUsermask => exact edit_cmdDelUsermask P b nick a
  | chkey => exact edit_chkey P b nick a
  | ownChkey who => exact edit_ownChkey P b nick who a
  | chnick => exact edit_cmdChnick P b nick a
  | addBot => exact edit_cmdAddBot P b nick a
  | delBot => exact edit_cmdDelBot P b nick a

/-! ### Runs -/

def idleUser (u : UserRecord) : UserRecord :=
  { u with lastSeen := 0, lastAuthReply := 0, actPending := 0 }

def idleMask (m : MaskRecord) : MaskRecord := { m with lastUsed := 0, actPending := 0 }

/-- The directory, but for when its people were last active. -/
def Directory.idle (d : Directory) : Directory :=
  { d with users := d.users.map idleUser, masks := d.masks.map idleMask }

/-- Runs of commands, from `b₀` on: each meets `ok` in the state it finds, and in between
anything happens that leaves the directory alone, but for the times of activity. -/
inductive Run (ok : BotState → Command → Args → Prop) (b₀ : BotState) : BotState → Prop where
  | start : Run ok b₀ b₀
  | command {b : BotState} (h : Run ok b₀ b) (nick : Str) (a : Args) (c : Command)
      (hok : ok b c a) : Run ok b₀ (c.exec P b nick a)
  | other {b b' : BotState} (h : Run ok b₀ b)
      (hidle : (directory b').idle = (directory b).idle) : Run ok b₀ b'

/-- A key, for runs on concrete inputs, that decodes to itself under `Primitives.clear`. -/
def someKey : Str := List.replicate 64 (byte 'k') ++ List.replicate 22 (byte 'A') ++ str "=="

end IrcBot.UserCommands
