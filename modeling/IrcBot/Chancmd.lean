/-
# Commands about channels (`chancmd.rs`)

`chanmode`, `chanset`, `+ban` and `-ban` write the bot's own `C|`, `D|` and `B|` records,
through the codecs that also take in the hub's lines. Each asks `admin_change_refused`
first. `bans` lists.
-/
import IrcBot.Chanlive
import IrcBot.LocalWrites
import IrcBot.UserCommands

namespace IrcBot.Chancmd

open Cstr Chancfg Chanlive LocalWrites UserCommands

/-- `refused`: what the hub-only mode of the network says to a change. -/
def refusal (cmd : Str) : Str :=
  str "Error: '" ++ cmd ++
    str "' is disabled -- network is in hub-only-mutation mode (opt 'h'). Use the hub console."

/-- `find_chan`: a managed channel by name. -/
def findChan (b : BotState) (name : Str) : Except Str Nat :=
  if !((name.head? == some (byte '#') || name.head? == some (byte '&')) && name.length < maxChan) then
    .error (str "Error: give a channel name (#channel).")
  else
    match (find b name).filter fun ci => (b.chans[ci]?.map (·.isManaged)).getD false with
    | some ci => .ok ci
    | none => .error (str "Error: " ++ name ++ str " is not in my channel list.")

/-! ### chanmode -/

/-- `key_ok`. -/
def keyOk (k : Str) : Bool :=
  !k.isEmpty && k.length < maxKey && k.all fun c =>
    0x20 < c && c != 0x7f && c != byte ',' && c != byte '|'

/-- A parsed mode string: what is stored, and the change of the key. -/
structure ParsedModes where
  stored : Str := []
  key : Option Str := none
  keyClear : Bool := false
deriving DecidableEq, Repr

/-- Where the walk over the letters is; `args` are those not consumed yet. -/
structure ModeWalk where
  args : List Str
  seen : Str := []
  letters : Str := []
  sign : Option UInt8 := none
  limit : Int := 0
  plusS : Bool := false
  plusP : Bool := false
  key : Option Str := none
  keyClear : Bool := false

/-- A limit, as `strtol` reads it: an optional sign, then digits and nothing else. -/
def limitArg (a : Str) : Option Int :=
  let digits := if a.head? == some (byte '+') || a.head? == some (byte '-') then a.drop 1 else a
  if a.length ≤ 5 && !digits.isEmpty && digits.all isDigit && 1 ≤ atoll a && atoll a ≤ 99999 then
    some (atoll a)
  else none

/-- The argument of one letter. -/
def modeArg (w : ModeWalk) (adding : Bool) (m : UInt8) : Except Str ModeWalk :=
  if m = byte 'k' ∧ !adding then .ok { w with keyClear := true }
  else if m = byte 'k' then
    match w.args.head?.filter keyOk with
    | some k => .ok { w with key := some k, args := w.args.drop 1 }
    | none => .error (str "+k needs a key (1.." ++ decNat (maxKey - 1) ++
        str " bytes, no space, comma or control character)")
  else if m = byte 'l' ∧ adding then
    match w.args with
    | [] => .error (str "+l needs a limit (1..99999)")
    | a :: args =>
        match limitArg a with
        | some v => .ok { w with limit := v, args }
        | none => .error (str "the limit must be 1..99999")
  else .ok w

/-- The letters of `parse_modes`, one by one. -/
def modeLoop (w : ModeWalk) (adding : Bool) : Str → Except Str ModeWalk
  | [] => .ok w
  | m :: ms =>
      if m = byte '+' ∨ m = byte '-' then modeLoop w (m = byte '+') ms
      else if !(str "imnpstkl").contains m then
        .error (str "'" ++ firstChar (m :: ms) ++
          str "' is not a channel mode I manage (i m n p s t k l)")
      else if w.seen.contains m then .error (str "'" ++ [m] ++ str "' given twice")
      else if 40 ≤ w.letters.length + 3 then .error (str "mode string too long")
      else
        let want := if adding then byte '+' else byte '-'
        let signed := if w.sign != some want then w.letters ++ [want] else w.letters
        match modeArg
            { w with
              seen := m :: w.seen
              letters := signed ++ [m]
              sign := some want
              plusS := w.plusS || (adding && m == byte 's')
              plusP := w.plusP || (adding && m == byte 'p') } adding m with
        | .error e => .error e
        | .ok w => modeLoop w adding ms

/-- `parse_modes`. -/
def parseModes (modes : Str) (args : List Str) : Except Str ParsedModes :=
  match modeLoop { args } true modes with
  | .error e => .error e
  | .ok w =>
      if w.letters.isEmpty then .error (str "no modes given")
      else if !w.args.isEmpty then .error (str "wrong number of arguments for the modes")
      else if w.plusS && w.plusP then .error (str "+s and +p together are refused")
      else
        let stored := if 0 < w.limit then w.letters ++ str " " ++ dec w.limit else w.letters
        if cModesMax < stored.length then .error (str "mode string too long")
        else .ok { stored, key := w.key, keyClear := w.keyClear }

/-- `show_modes`. -/
def showModes (b : BotState) (nick : Str) (ci : Nat) : BotState :=
  match b.chans[ci]? with
  | none => b
  | some c =>
      say b nick (trunc (c.name ++ str ": stored modes " ++ getModes b (some c) ++
        (if c.cfgActive && 0 < c.cfgTs && !c.cfgModes.isEmpty then [] else str " (default)") ++
        str ", key " ++ (if c.key.isEmpty then str "none" else str "set") ++ str ", " ++
        (if get b (some c) .enforceModes != 0 then str "+enforcemodes" else str "-enforcemodes")) 256)

/-- The key of a channel after `p`. -/
def keyAfter (p : ParsedModes) (key : Str) : Str :=
  match p.key.filter (· != key) with
  | some k => k
  | none => if p.keyClear && !key.isEmpty then [] else key

/-- The end of `chanmode`: what was stored, and whether it is applied. -/
def reportModes (b : BotState) (nick : Str) (ci : Nat) (stored : Str) : BotState :=
  let shown := if stored.isEmpty then str "network default" else stored
  match b.chans[ci]? with
  | none => b
  | some c =>
      let b :=
        if c.status == .inside && c.iAmOpped then
          let (r, b) := applyStored b ci
          let sum := match r with
            | .error _ => str "could not apply"
            | .ok n =>
                trunc (decNat n ++ str " change" ++ (if n == 1 then [] else str "s") ++ str " queued") 64
          say b nick (c.name ++ str ": modes stored (" ++ shown ++ str ") and applied: " ++ sum ++ str ".")
        else
          say b nick (c.name ++ str ": modes stored (" ++ shown ++
            str "); not applied, I am not opped there.")
      if stored.contains (byte 'l') && get b b.chans[ci]? .dynamicLimit != 0 then
        say b nick (str "Warning: +dynamiclimit is on and overrides the fixed limit.")
      else b

/-- `chanmode`, once the modes are parsed. The key is put back if the record is refused. -/
def storeModes (b : BotState) (nick : Str) (ci : Nat) (p : ParsedModes) : BotState :=
  match b.chans[ci]? with
  | none => b
  | some c =>
      let key := keyAfter p c.key
      match localC (withChan b ci fun c => { c with key }) ci p.stored c.cfgSettings with
      | (false, b) =>
          say (withChan b ci fun x => { x with key := c.key }) nick
            (str "Error: could not store the modes.")
      | (true, b) =>
          let b :=
            if key != c.key then
              HubPush.pushConfig (withChan b ci fun x =>
                { x with timestamp := lwwNextTs b.now x.timestamp })
            else b
          reportModes b nick ci p.stored

/-- `chanmode <#channel> [<modes> [args]|-]`. -/
def chanmode (b : BotState) (nick : Str) (args : Option Str) : BotState :=
  if adminChangeRefused b then say b nick (refusal (str "chanmode"))
  else
    match tokens (args.getD []) with
    | [] => say b nick (str "Syntax: chanmode <#channel> [<modes> [args]|-]")
    | name :: rest =>
        match findChan b name with
        | .error e => say b nick e
        | .ok ci =>
            match rest with
            | [] => showModes b nick ci
            | modes :: av =>
                if 8 < av.length then say b nick (str "Error: too many arguments.")
                -- back to the network default
                else if modes == str "-" && av.isEmpty then storeModes b nick ci {}
                else
                  match parseModes modes av with
                  | .error e => say b nick (str "Error: bad mode: " ++ e ++ str ".")
                  | .ok p => storeModes b nick ci p

/-! ### chanset -/

/-- A setting or a flood, as an entry of the listing. -/
inductive Item where
  | set (id : CsetId)
  | flood (kind : FloodKind)
deriving DecidableEq, Repr

def items : List Item := csetIds.map .set ++ floodKinds.map .flood

def Item.name : Item → Str
  | .set id => (cset id).name
  | .flood kind => flName kind

/-- A channel can have it too, not only the network. -/
def Item.onChan : Item → Bool
  | .set id => !(cset id).netOnly
  | .flood kind => flIsChan kind

/-- `item_index`: none for an unknown name, or one of the network only. -/
def itemIndex (name : Str) (net : Bool) : Option Item :=
  (items.find? fun i => i.name == name).filter fun i => net || i.onChan

/-- `setting_is_flag`. -/
def settingIsFlag (name : Str) : Bool :=
  match itemIndex name true with
  | some (.set id) => (cset id).lo == 0 && (cset id).hi == 1
  | _ => false

/-- `item_source`: the letter of the channel's override, the network default or the built-in
value. -/
def itemSource (b : BotState) (c : Option Chan) (i : Item) : UInt8 :=
  let has (s : ChanSettings) : Bool :=
    match i with
    | .set id => (s.val id).isSome
    | .flood kind => (s.fl kind).isSome
  if i.onChan && (chanOverride c).any has then byte 'c'
  else if (netDefaults b).any has then byte 'n'
  else byte 'b'

/-- The value that `settings_edit` writes. -/
def newValue (i : Item) (name value : Str) : Except Str Str :=
  match i with
  | .set id =>
      match (parseLl value).filter fun v => (cset id).lo ≤ v && v ≤ (cset id).hi with
      | some v => .ok (dec v)
      | none =>
          .error (name ++ str " must be " ++ dec (cset id).lo ++ str ".." ++ dec (cset id).hi)
  | .flood kind =>
      if kind ≠ .sendq ∧ value = str "off" then .ok (str "off")
      else
        let ((nlo, nhi), (slo, shi), offOk) := flBounds kind
        let spec := do
          let (n, sec) ← splitOnce (byte ':') value
          let n ← parseLl n
          let sec ← parseLl sec
          if nlo ≤ n ∧ n ≤ nhi ∧ slo ≤ sec ∧ sec ≤ shi then some (n, sec) else none
        match spec with
        | some (n, sec) => .ok (dec n ++ str ":" ++ dec sec)
        | none =>
            if offOk then
              .error (name ++ str " must be N:S (N 1..1000, S 1..3600), off or default")
            else
              .error (name ++ str " must be B:I (burst 1..100, interval 0..10000 ms) or default")

/-- The other entries of a settings field, while they fit the buffer. -/
def keepTokens (cap : Nat) (name : Str) : Str → List Str → Option Str
  | out, [] => some out
  | out, tok :: toks =>
      if (name ++ str "=").isPrefixOf tok then keepTokens cap name out toks
      else if cap ≤ out.length + tok.length + 2 then none
      else keepTokens cap name ((if out.isEmpty then out else out ++ str ",") ++ tok) toks

/-- `settings_edit`: the field with `name=value` set, or dropped for `default`. -/
def settingsEdit (settings : Str) (cap : Nat) (net : Bool) (name value : Str) : Except Str Str :=
  let outCap := dSettingsMax + 64
  let full := str "settings field is full"
  match itemIndex name net with
  | none => .error (str "unknown setting '" ++ name ++ str "'")
  | some i =>
      let drop := value == str "default"
      match if drop then .ok [] else newValue i name value with
      | .error e => .error e
      | .ok nv =>
          match keepTokens outCap name []
              ((splitOn (byte ',') settings).filter (!·.isEmpty)) with
          | none => .error full
          | some out =>
              let add :=
                if drop then [] else (if out.isEmpty then [] else str ",") ++ name ++ str "=" ++ nv
              if !drop && outCap ≤ out.length + add.length then .error full
              else if cap ≤ (out ++ add).length ||
                  (if net then dSettingsMax else cSettingsMax) < (out ++ add).length then .error full
              else .ok (out ++ add)

/-- `settings_rows`: the listing, wrapped. -/
def settingsRows (b : BotState) (ci : Option Nat) : List Str :=
  let c := ci.bind fun i => b.chans[i]?
  let text (i : Item) : Str :=
    let val := match i with
      | .set id => dec (get b c id)
      | .flood kind =>
          match getFlood b c kind with
          | some (n, s) => dec n ++ str ":" ++ dec s
          | none => str "off"
    i.name ++ str "=" ++ val ++ str "(" ++ [itemSource b c i] ++ str ")  "
  let (rows, row) := ((items.filter fun i => ci.isNone || i.onChan).map text).foldl
    (fun (rows, row) item =>
      if 360 ≤ row.length + item.length then (rows ++ [row], item) else (rows, row ++ item)) ([], [])
  if row.isEmpty then rows else rows ++ [row]

/-- Who a listing or a change is about. -/
def target (b : BotState) (ci : Option Nat) : Str :=
  match ci with
  | none => str "default"
  | some i => (b.chans[i]?.map (·.name)).getD []

/-- `show_settings`. -/
def showSettings (b : BotState) (nick : Str) (ci : Option Nat) : BotState :=
  (settingsRows b ci).foldl (say · nick ·)
    (say b nick (str "Settings for " ++ target b ci ++
      str " (c = channel, n = network default, b = built-in):"))

/-- One edit out of the words of `chanset`: the item, its value and the words behind. -/
def nextEdit (net : Bool) (tk : Str) (rest : List Str) : Except Str (Str × Str × List Str) :=
  if (tk.head? == some (byte '+') || tk.head? == some (byte '-')) && 1 < tk.length then
    if settingIsFlag (tk.drop 1) then
      .ok (tk.drop 1, if tk.head? == some (byte '+') then str "1" else str "0", rest)
    else
      .error (str "Error: '" ++ tk.drop 1 ++ str "' is not an on/off option; give it a value.")
  else if eqIc tk (str "key") then
    .error (str "Error: the key moved: use chanmode <#channel> +k <key>.")
  else if tk == str "flood" then
    match rest with
    | typ :: v :: rest =>
        if typ.length ≤ 8 then
          -- of the bot's floods, `ctcp` is also one of the channel's, which it means
          let pre := if net && (typ == str "cmd" || typ == str "msg") then str "bflood " else str "flood "
          .ok (pre ++ typ, v, rest)
        else .error (str "Syntax: flood <type> <N:S|off|default>")
    | _ => .error (str "Syntax: flood <type> <N:S|off|default>")
  else if tk == str "bflood" && net then
    match rest with
    | typ :: v :: rest =>
        if typ.length ≤ 8 then .ok (str "bflood " ++ typ, v, rest)
        else .error (str "Syntax: bflood <cmd|msg|ctcp> <N:S|off|default>")
    | _ => .error (str "Syntax: bflood <cmd|msg|ctcp> <N:S|off|default>")
  else
    match rest with
    | v :: rest => .ok (tk, v, rest)
    | [] => .error (str "Error: '" ++ tk ++ str "' needs a value.")

/-- The edits of `chanset`, one after the other: the field then, and how many there were. Each
takes at least one word. -/
def editLoop (net : Bool) : Nat → Str → Nat → List Str → Except Str (Str × Nat)
  | _, sets, edits, [] => .ok (sets, edits)
  | 0, sets, edits, _ => .ok (sets, edits)
  | fuel + 1, sets, edits, tk :: rest =>
      match nextEdit net tk rest with
      | .error e => .error e
      | .ok (item, val, rest) =>
          match settingsEdit sets (dSettingsMax + 1) net item val with
          | .error why => .error (str "Error: " ++ why ++ str ".")
          | .ok sets => editLoop net fuel sets (edits + 1) rest

/-- `chanset`, once the target is known. -/
def editSettings (b : BotState) (nick : Str) (ci : Option Nat) (words : List Str) : BotState :=
  let c := ci.bind fun i => b.chans[i]?
  let sets := match ci with
    | some _ => (c.map (·.cfgSettings)).getD []
    | none => b.netSettings
  match editLoop ci.isNone words.length sets 0 words with
  | .error e => say b nick e
  | .ok (sets, edits) =>
      let stored := match ci with
        | none => localD b b.netModes sets
        | some i => localC b i ((c.map (·.cfgModes)).getD []) sets
      match stored with
      | (false, b) => say b nick (str "Error: could not store the settings.")
      | (true, b) =>
          say b nick (target b ci ++ str ": " ++ decNat edits ++ str " setting" ++
            (if edits == 1 then [] else str "s") ++ str " changed (now: " ++
            (if sets.isEmpty then str "all built-in" else sets) ++ str ").")

/-- `chanset <#channel|default> [+opt -opt ...] [<name> <value|default>] [flood ...]`. -/
def chanset (b : BotState) (nick : Str) (args : Option Str) : BotState :=
  if adminChangeRefused b then say b nick (refusal (str "chanset"))
  else
    match tokens (args.getD []) with
    | [] =>
        say b nick (str "Syntax: chanset <#channel|default> [+opt -opt ...] " ++
          str "[<name> <value|default>] [flood <type> <N:S|off|default>]")
    | name :: words =>
        let ci := if eqIc name (str "default") then .ok none else (findChan b name).map some
        match ci with
        | .error e => say b nick e
        | .ok ci => if words.isEmpty then showSettings b nick ci else editSettings b nick ci words

/-! ### Bans -/

/-- `mask_ok`. -/
def maskOk (m : Str) : Bool :=
  5 ≤ m.length && m.length ≤ banMaskMax && !m.contains (byte '|') && m.contains (byte '!') &&
    (m.dropWhile (· ≠ byte '!')).contains (byte '@')

/-- `ban_target`: `*`, or a managed channel. -/
def banTarget (b : BotState) (name : Str) : Except Str (Option Nat) :=
  if name == str "*" then .ok none else (findChan b name).map some

/-- The name a ban's target is stored under. -/
def targetName (b : BotState) (ci : Option Nat) : Str :=
  match ci with
  | none => str "*"
  | some i => (b.chans[i]?.map (·.name)).getD []

/-- `user_name`. -/
def userName (b : BotState) (who : Nat) : Str :=
  (b.userRecords[who]?.map (·.name)).getD (str "admin")

/-- The optional words of `+ban`: when it ends, whether it is sticky, and the reason. -/
def banWords (now : Int) (p : Str) : Except Str (Int × Bool × Str) :=
  let p := p.dropWhile (· == byte ' ')
  let w := p.takeWhile (· != byte ' ')
  let timed : Except Str (Int × Str) :=
    if 0 < w.length ∧ w.length < 16 then
      if w == str "perm" then .ok (0, p.drop w.length)
      else if w.all isDigit && w.length ≤ 6 then
        if 1 ≤ atoll w ∧ atoll w ≤ 525600 then .ok (now + atoll w * 60, p.drop w.length)
        else .error (str "Error: minutes must be 1..525600 (or perm).")
      else .ok (0, p)
    else .ok (0, p)
  timed.map fun (expires, p) =>
    let p := p.dropWhile (· == byte ' ')
    let w := p.takeWhile (· != byte ' ')
    let sticky := w == str "sticky"
    (expires, sticky, (if sticky then p.drop w.length else p).dropWhile (· == byte ' '))

/-- Whom a ban must not hit: the members of the channel, or of all managed ones, and
everybody who is known. -/
def banVerdict (b : BotState) (ci : Option Nat) (mask : Str) : Except Str Unit :=
  match ci with
  | some ci => Chanenf.banAllowedWhy b (some ci) mask
  | none => do
      ((List.range b.chans.length).filter fun k => (b.chans[k]?.map (·.isManaged)).getD false).forM
        fun k => Chanenf.banAllowedWhy b (some k) mask
      Chanenf.banAllowedWhy b none mask

/-- `ban_add`: `+ban <#channel|*> <nick!user@host> [<minutes>|perm] [sticky] [reason]`. -/
def banAdd (b : BotState) (nick : Str) (who : Nat) (args : Option Str) : BotState :=
  if adminChangeRefused b then say b nick (refusal (str "+ban"))
  else
    let (chan, rest) := tokNext (str " ") (args.getD [])
    let (mask, rest) := tokNext (str " ") rest
    match chan, mask with
    | some chan, some mask =>
        match banTarget b chan with
        | .error e => say b nick e
        | .ok ci =>
            if !maskOk mask then
              say b nick (str "Error: the mask must look like nick!user@host (wildcards allowed).")
            else
              match banWords b.now rest with
              | .error e => say b nick e
              | .ok (expires, sticky, reason) =>
                  match banVerdict b ci mask with
                  | .error hit =>
                      say b nick (str "Refused: " ++ mask ++ str " would hit " ++ trunc hit 128 ++
                        str " -- a bot or an authorised user is never banned.")
                  | .ok () =>
                      let cn := targetName b ci
                      match localBan b cn mask expires (if sticky then str "s" else [])
                          (userName b who) reason false with
                      | (false, b) => say b nick (str "Error: ban not stored (list full or bad value).")
                      | (true, b) =>
                          say b nick (str "Ban added: " ++ cn ++ str " " ++ mask ++ str " (" ++
                            (if expires != 0 then str "timed" else str "permanent") ++
                            (if sticky then str ", sticky" else []) ++ str ").")
    | _, _ =>
        say b nick
          (str "Syntax: +ban <#channel|*> <nick!user@host> [<minutes>|perm] [sticky] [reason]")

/-- `ban_del`: `-ban <#channel|*> <nick!user@host>`. -/
def banDel (b : BotState) (nick : Str) (who : Nat) (args : Option Str) : BotState :=
  if adminChangeRefused b then say b nick (refusal (str "-ban"))
  else
    let (chan, rest) := tokNext (str " ") (args.getD [])
    let (mask, _) := tokNext (str " ") rest
    match chan, mask with
    | some chan, some mask =>
        match banTarget b chan with
        | .error e => say b nick e
        | .ok ci =>
            let cn := targetName b ci
            let noBan := str "Error: no ban " ++ mask ++ str " on " ++ cn ++ str "."
            if (banGet b cn mask).isNone then say b nick noBan
            else
              match localBan b cn mask 0 [] (userName b who) [] true with
              | (false, b) => say b nick noBan
              | (true, b) => say b nick (str "Ban removed: " ++ cn ++ str " " ++ mask ++ str ".")
    | _, _ => say b nick (str "Syntax: -ban <#channel|*> <nick!user@host>")

/-- One row of `bans`. -/
def banRow (now : Int) (x : CfgBan) : Str :=
  let left := if x.expires != 0 then dec ((x.expires - now + 59) / 60) ++ str "m" else str "perm"
  x.chan ++ str " " ++ x.mask ++ str " " ++ left ++
    (if x.flags.contains (byte 's') then str " sticky" else []) ++ str " by " ++ x.setter ++
    (if x.reason.isEmpty then [] else str ": ") ++ x.reason

def bansRows : Nat := 30

/-- `bans [#channel]`. -/
def bans (b : BotState) (nick : Str) (args : Option Str) : BotState :=
  let chan := (tokNext (str " ") (args.getD [])).1
  let listed := b.cfgBans.filter fun x =>
    x.active && !(chan.any fun c => !eqIc x.chan c && x.chan != str "*") &&
      !(x.expires != 0 && x.expires ≤ b.now)
  let b := (listed.take bansRows).foldl (fun s x => say s nick (banRow b.now x)) b
  if listed.isEmpty then say b nick (str "No network bans.")
  else if bansRows < listed.length then
    say b nick (str "... and " ++ decNat (listed.length - bansRows) ++ str " more.")
  else b

end IrcBot.Chancmd
