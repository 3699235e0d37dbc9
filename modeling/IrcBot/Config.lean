/-
# The lines of the config file (`config.rs`)

The records as `|`-separated lines, as they are written into the config file, and
as the hub sends and receives them. Each decoder says what it takes; nothing is
stored truncated that would mis-key a later lookup.
-/
import IrcBot.Chancfg
import IrcBot.Crypto

namespace IrcBot.Config

open Cstr Crypto Chancfg

section

variable (P : Primitives)

/-! ### People -/

/-- `field_pubkey`: a key-shaped field. -/
def fieldPubkey (f : Str) : Option Str :=
  if f.length ≠ combinedKeyB64 then none else (pubkeyB64Decode P f).map fun _ => f

/-- `parse_user_line`. The third field decides: a key there means the new format,
anything else is a legacy password and the key, if any, is the seventh. -/
def parseUserLine (data : Str) : Option UserLine :=
  match splitFields data 8 with
  | uuid :: name :: third :: op :: lastSeen :: stamp :: rest =>
      if !isUuid uuid then none
      else if name.isEmpty || userNameBuf ≤ name.length then none
      else
        let line : UserLine :=
          { uuid, name, isActive := op == str "add", lastSeen := atoll lastSeen
            timestamp := atoll stamp }
        match fieldPubkey P third with
        | some k => some { line with pubkeyB64 := k, hasPubkey := true }
        | none =>
            match rest.head?.bind (fieldPubkey P) with
            | some k => some { line with legacy := true, pubkeyB64 := k, hasPubkey := true }
            | none => some { line with legacy := true }
  | _ => none

/-- `format_user_line`. -/
def formatUserLine (u : UserRecord) : Str :=
  u.typ :: str "|" ++ u.uuid ++ str "|" ++ u.name ++ str "|" ++
    (if u.hasPubkey then u.pubkeyB64 else []) ++ str "|" ++ addDel u.isActive ++ str "|" ++
    dec u.lastSeen ++ str "|" ++ dec u.timestamp ++ str "|\n"

/-! ### Bots and masks -/

/-- `parse_bot_line`: `mask`, `mask|uuid`, `mask|uuid|ts` or `mask|uuid|pubkey|ts`. -/
def parseBotLine (data : Str) : Option TrustedBot :=
  match splitFields data 5 with
  | [] => none
  | mask :: rest =>
      if mask.isEmpty || maxMaskLen ≤ mask.length then none
      else
        match rest with
        | [] => some { mask }
        | uuid :: rest =>
            if uuidBuf ≤ uuid.length then none
            else
              match rest with
              | [] => some { mask, uuid }
              | [stamp] => some { mask, uuid, ts := atoll stamp }
              | key :: stamp :: _ =>
                  match (fieldPubkey P key).bind (pubkeyB64Decode P) with
                  | some k =>
                      some { mask, uuid, pubKey := k, hasPub := true, ts := atoll stamp }
                  | none => some { mask, uuid, ts := atoll stamp }

/-- `format_bot_line`. -/
def formatBotLine (tb : TrustedBot) : Str :=
  str "b|" ++ tb.mask ++ str "|" ++ tb.uuid ++ str "|" ++
    (if tb.hasPub then P.b64Encode tb.pubKey else []) ++ str "|" ++ dec tb.ts ++ str "\n"

end

/-- `format_mask_line`. -/
def formatMaskLine (m : MaskRecord) : Str :=
  str "m|" ++ m.uuid ++ str "|" ++ m.mask ++ str "|" ++ addDel m.isActive ++ str "|" ++
    dec m.lastUsed ++ str "|" ++ dec m.timestamp ++ str "\n"

/-! ### Opt flags -/

def isAlnum (c : UInt8) : Bool := isDigit c || isAlpha c

/-- `clean_opt_flags`. -/
def cleanOptFlags (s : Str) : Str := (s.filter isAlnum).take maxOptFlags

/-- `parse_opt_line`: `|<ts>` is a clear. -/
def parseOptLine (data : Str) : Option (Str × Int) :=
  match lit (str "|") data with
  | some rest => if 0 < (strtoll rest).2 then some ([], (strtoll rest).1) else none
  | none =>
      (setNot maxOptFlags (str "|") data).map fun (flags, rest) =>
        (cleanOptFlags flags, ((lit (str "|") rest).map atoll).getD 0)

/-! ### Channels -/

/-- A `c|` body: name, key, op and stamp. -/
structure CfgChan where
  chan : Str
  key : Str
  op : Str
  ts : Int
deriving DecidableEq, Repr

/-- `parse_cfg_chan`: the form with a key, else the form with an empty one. -/
def parseCfgChan (data : Str) : Option CfgChan :=
  let pipe := [byte '|']
  match sscanf data [.set 64 pipe, .lit pipe, .set 30 pipe, .lit pipe, .set 15 pipe, .lit pipe,
    .int] with
  | chan :: key :: op :: rest => some ⟨chan.str, key.str, op.str, (rest.head?.map (·.int)).getD 0⟩
  | _ =>
      match sscanf data [.set 64 pipe, .lit pipe, .lit pipe, .set 15 pipe, .lit pipe, .int] with
      | chan :: op :: rest => some ⟨chan.str, [], op.str, (rest.head?.map (·.int)).getD 0⟩
      | _ => none

/-- The `c|` line of a channel in the config file, none for a channel that is
known from its `C|` line only. -/
def cfgChanLine (c : Chan) : Option Str :=
  if c.timestamp = 0 ∧ !c.isManaged then none
  else
    some (str "c|" ++ c.name ++ str "|" ++ c.key ++ str "|" ++ addDel c.isManaged ++ str "|" ++
      dec c.timestamp ++ str "\n")

/-- The `c|` lines `serialize` writes. -/
def serializeChans (b : BotState) : Str := (b.chans.filterMap cfgChanLine).flatten

/-- The `c|` arm of `load`: names that differ in case only are one channel, and a
stamp that is missing is now. -/
def loadChanLine (b : BotState) (data : Str) : BotState :=
  match parseCfgChan data with
  | none => b
  | some p =>
      let isAdd := p.op != str "del"
      let effTs := if 0 < p.ts then p.ts else b.now
      match find b p.chan with
      | some ci =>
          withChan b ci fun c =>
            if c.timestamp = 0 || lwwAccepts effTs isAdd c.timestamp c.isManaged then
              { c with
                key := trunc p.key maxKey, isManaged := isAdd, timestamp := effTs
                status := if isAdd then c.status else .out }
            else c
      | none =>
          match add b p.chan with
          | none => b
          | some (ci, b) =>
              withChan b ci fun c =>
                { c with
                  key := if p.key.isEmpty then c.key else trunc p.key maxKey
                  isManaged := isAdd, timestamp := effTs
                  status := if isAdd then c.status else .out }

end IrcBot.Config
