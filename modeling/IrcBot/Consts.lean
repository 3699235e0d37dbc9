/-
# Limits, timeouts and opcodes (`consts.rs`)

The constants the modelled functions read, under the source's names. Buffer
sizes count the final NUL, as in the source.
-/
import IrcBot.Cstr

namespace IrcBot

/-! ### Buffers and tables -/

def maxChan : Nat := 65
def maxBuffer : Nat := 16384
def maxNick : Nat := 10
def nickTakeTime : Int := 20
def nickRetryTime : Int := 10
def maxMemberNick : Nat := 32
def maxKey : Nat := 31
def maxMaskLen : Nat := 256
def maxUserRecords : Nat := 40
def maxUserMasks : Nat := 200
def maxTrustedBots : Nat := 200
def maxRosterSize : Nat := 500
def uuidBuf : Nat := 37
def userNameBuf : Nat := 64
def maxOptFlags : Nat := 32
def hubKeyRawLen : Nat := 64
def combinedKeyB64 : Nat := 88
def opGrantHoldMax : Nat := 8
def opGrantHoldSecs : Int := 15
def chanDoNickMax : Nat := 30
def joinRetryTime : Int := 10

/-! ### The config file and the log -/

def saltSize : Nat := 16
def pbkdf2Iterations : Nat := 100000
def maxPass : Nat := 128
def maxHubKeySize : Nat := 128
def maxConfigSize : Nat := 1024 * 1024
def defaultLogLevel : UInt32 := 0
def botLogFileSize : Nat := 10 * 1024 * 1024
def botLogSizeMin : Nat := 1024
def botLogSizeMax : Nat := 1024 * 1024 * 1024
def numLogLevels : Nat := 6
def logBufferLines : Nat := 50
def maxLogLineLen : Nat := 256
def defaultLogLines : Int := 10
def maxLogLines : Int := 20

/-! ### Channel and network settings -/

def cfgMaxGlobals : Nat := 64
def cfgMaxChannels : Nat := cfgMaxGlobals
def cModesMax : Nat := 64
def cSettingsMax : Nat := 512
def dSettingsMax : Nat := 512
def banReasonMax : Nat := 120
def banMaskMax : Nat := 120
def banSetterMax : Nat := 63
def maxBansPerChan : Nat := 100
def maxGlobalBans : Nat := 100
def cLineMax : Nat := 2 + maxChan + 1 + cModesMax + 1 + cSettingsMax + 24
def dLineMax : Nat := 2 + cModesMax + 1 + dSettingsMax + 24
def bLineMax : Nat :=
  2 + maxChan + 1 + banMaskMax + 1 + 24 + 8 + banSetterMax + 1 + banReasonMax + 40
def cfgMaxBans : Nat := maxGlobalBans + cfgMaxChannels * maxBansPerChan
def cfgGlobalLineMax : Nat := 1088
def cfgBotFieldLine : Nat := 320
def cfgUserLineMax : Nat := 384
def cfgMaskLineMax : Nat := 352
def cfgBlineMax : Nat := 448
def cfgBotSyncFields : Nat := 8
def cfgPayloadSlack : Nat := 8192
def maxConfigPayload : Nat :=
  cfgMaxGlobals * cfgGlobalLineMax + cfgMaxChannels * cLineMax + dLineMax +
    cfgMaxBans * bLineMax + maxUserRecords * cfgUserLineMax + maxUserMasks * cfgMaskLineMax +
    cfgBotSyncFields * cfgBotFieldLine + maxTrustedBots * cfgBlineMax + cfgPayloadSlack
def sendqDefBurst : Int := 10
def sendqDefIntervalMs : Int := 100
def sendqMinBurst : Int := 1
def sendqMaxBurst : Int := 100
def sendqMinIntervalMs : Int := 0
def sendqMaxIntervalMs : Int := 10000
def maxSendq : Nat := 256

/-! ### Replay caches and clock skews -/

def maxSeenHashes : Nat := 4096
def nonceCacheSize : Nat := 4096
def nonceTtlSeconds : Int := 60
def a2TsSkew : Int := 30
def b2TsSkew : Int := 60
def a2AuthReplyMinInterval : Int := 3
def a2AuthReplyGlobalInterval : Int := 1

theorem maxSeenHashes_pos : 0 < maxSeenHashes := by decide

theorem nonceCacheSize_pos : 0 < nonceCacheSize := by decide

/-! ### IRC link -/

def deadServerTimeout : Int := 120
def checkLagTimeout : Int := 60
def ircRegisterTimeout : Int := 90
def rosterRefreshInterval : Int := 120
def ircReconnectMinInterval : Int := 10

/-! ### Hub link -/

def optHubOnlyMutations : UInt8 := byte 'h'
def gcmIvLen : Nat := 12
def gcmTagLen : Nat := 16
def hubReconnectDelay : Int := 30
def maxHubFrame : Nat := maxConfigPayload + 64
def opRequestMinInterval : Int := 5
def chanRequestMinInterval : Int := 5
def chanRequestRetryTime : Int := 60
def chanRequestMaxRetries : Int := 5
def chanRequestCooloff : Int := 300
def unbanMaxRemovals : Int := 6
def ircRefusalLen : Nat := 256
def ircThrottleBackoff : Int := 60
def ircThrottleBackoffMax : Int := 1800
def ircBanBackoff : Int := 900
def ircBanBackoffMax : Int := 86400
def ircBanStatedMax : Int := 2592000
def ircBanGrace : Int := 30
def maxServers : Nat := 10
def activityBucket : Int := 3600
def activityMaxFuture : Int := 300
def activityQueryTimeout : Int := 3
def maxActivityQueries : Nat := 4
def botStatusMaxLines : Nat := 30
def activityReqIdMax : Nat := 32
def botPresenceReportInterval : Int := 120
def chanEventTargetMax : Nat := 120
def chanEventDetailMax : Nat := 160
def chanEventDedupeSecs : Int := 10
def chanEventWindowSecs : Int := 60
def chanEventWindowMax : Nat := 20
def chanEventTrack : Nat := 32

def cmdPing : UInt8 := 0x01
def cmdConfigPush : UInt8 := 0x02
def cmdConfigPull : UInt8 := 0x03
def cmdConfigData : UInt8 := 0x04
def cmdInviteRequest : UInt8 := 0x09
def cmdOpRequest : UInt8 := 0x28
def cmdOpGrant : UInt8 := 0x29
def cmdOpFailed : UInt8 := 0x2A
def cmdBotDelta : UInt8 := 0x45
def cmdBotRelay : UInt8 := 0x50
def cmdBotMsg : UInt8 := 0x51
def cmdBotPresence : UInt8 := 0x56
def cmdBotTree : UInt8 := 0x58
def cmdChanRequest : UInt8 := 0x59
def cmdChanAction : UInt8 := 0x5A
def cmdChanReply : UInt8 := 0x5B
def cmdChanProbe : UInt8 := 0x6D
def cmdChanProbeAck : UInt8 := 0x6E
def cmdChanDo : UInt8 := 0x6F
def cmdChanDone : UInt8 := 0x70
def cmdActivity : UInt8 := 0x69
def cmdActivityQuery : UInt8 := 0x6A
def maxBotTreeRows : Nat := 256
def maxTreeDepth : Int := 32
def treeVersionMax : Nat := 15
def botProtoVersion : Int := 2
def botVersion : Str := str "2.4.8"
def botUpdateVariant : Str := str "rs"
def botUpdateBase : Str :=
  str "https://raw.githubusercontent.com/robertclemens/ircbot-releases/main/ircbot"
def chanReplyAcceptWindow : Int := 45
def maxUnbanJobs : Nat := 8
def upgradeOpsWait : Int := 180
def upgradePrepareTtl : Int := 900
def unbanJobTtl : Int := 30
def cmdUpgradePrepare : UInt8 := 0x5E
def cmdUpgradeReady : UInt8 := 0x5F
def cmdUpgradeCommit : UInt8 := 0x60
def cmdUpgradeResult : UInt8 := 0x61
def cmdUpgradeAbort : UInt8 := 0x62
def cmdActivityReply : UInt8 := 0x6B
def cmdChanEvent : UInt8 := 0x7B

/-! ### Sealed commands -/

def a2aLabel : Str := str "ircbot-A2A-v1"
def a2kLabel : Str := str "ircbot-A2K-v1"
def a2Label : Str := str "ircbot-A2-v1"
def a2sLabel : Str := str "ircbot-A2S-v1"
def a2rLabel : Str := str "ircbot-A2R-v1"
def a2rTextMax : Nat := 240
def a2rPtMax : Nat := a2rTextMax + 24
def dccMaxSessions : Nat := 4
def dccOutbufMax : Nat := 512 * 1024
def dccOfferTimeout : Int := 120
def dccConnectTimeout : Int := 20
def dccIdleTimeout : Int := 3600
def dccMinPort : Nat := 1024
def b2Label : Str := str "ircbot-B2-v1"
def sealOverhead : Nat := 32 + 12 + 16
def sealMaxPlaintext : Nat := 1024
def a2NickMax : Nat := 64
/-- Base64 of the largest sealed frame: 4 bytes for every 3 begun. -/
def a2B64Max : Nat := 4 * ((sealMaxPlaintext + sealOverhead + 2) / 3)
def a2LineMax : Nat := 5 + a2B64Max

/-! ### In-channel elections -/

def jobKick : Nat := 0
def jobBan : Nat := 1
def jobOp : Nat := 2
def jobMode : Nat := 3
def jobLimit : Nat := 4
def jobCount : Nat := 5
def maxPendingJobs : Nat := 32
def jobMinVersion : Str := str "2.4.7"
def maxBanTrack : Nat := cfgMaxBans + maxGlobalBans * cfgMaxChannels
def maxOffences : Nat := 64
def enfRecent : Nat := 32
def enfKicksPerSweep : Nat := 4

/-! ### Flood counters -/

def flChanCount : Nat := 7
def maxFloodTrack : Nat := 64
def floodHostMax : Nat := 128
def maxIgnores : Nat := 64
def maxHostTrack : Nat := 64
def quietFillMs : Int := 60000

/-! ### What a silent server is assumed to support -/

def sendqLineMax : Nat := 510
def treeServerMax : Nat := 63
def isupportModesDefault : Int := 3
def isupportModesMax : Int := 12
def nicklenDefault : Int := 30
def maxlistDefault : Int := 100
def banListCap : Int := 200

end IrcBot
