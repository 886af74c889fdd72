import WzGame.Network.ServerManager
import Mathlib.Tactic.SplitIfs

/-!
This module contains the codes of the requests, and to which server a request goes.
-/

namespace WzGame

inductive RequestCode where
  | ping
  | responseToCliientCode
  | accountBegin
  | accountLogin
  | accountLoginResult
  | formationEquip
  | equipStrengthen
  | equipWear
  | heroStrengthen
  | lobbyBegin
  | lobbyEnterGame
  | lobbyEnterGameRoom
  | lobbyRankInfo
  | lobbyFastGame
  | lobbyLeaveDesk
  | lobbySwitchOpponent
  | lobbyPlayerLogout
  | lobbyPlayerRelogin
  | lobbyCreateRoomDesk
  | lobbyEnterRoomDesk
  | lobbyGetRoomInfo
  | lobbyTransVoice
  | lobbyDisbandDesk
  | lobbyAgreeDisband
  | lobbyRefuseDisband
  | lobbyGetPeopleNum
  | lobbyEnterModule
  | lobbyExitModule
  | lobbyGetRoomScoreList
  | lobbyGetScoreDetail
  | gameRecord
  | lobbyZjhBeginGame
  | mailBegin
  | mailAll
  | mailDelete
  | mailContactKefu
  | mailGainMail
  | mailReadMail
  | mailGetAllKefuMessage
  | mailSendAgentMessage
  | agentTransferRequest
  | agentTransferMessage
  | niuniuBegin
  | niuniuLowerChip
  | niuniuRobBanner
  | niuniuGiveUpBanner
  | niuniuCancelBanner
  | niuniuGetHisRecord
  | niuniuResetNiuniu
  | niuniuGetRankList
  | niuniuRenewed
  | xueniuBegin
  | xueniuChoseCardsSwitch
  | xueniuChoseType
  | xueniuGetDisbandInfo
  | ddzRobLord
  | ddzDiscardCard
  | ddzPass
  | ddzJiabei
  | ddzTuoguan
  | ddzCancelTuoguan
  | logicRoomGameStart
  | logicGiveUp
  | logicContinueGame
  | zjhAddGold
  | zjhLookCard
  | zjhCompareCard
  | zjhGiveUp
  | zjhShowCards
  | zjhAllGoldIn
  | zjhFullPressure
  | grabNiuGrabZhuang
  | grabNiuAddBet
  | grabNiuPlayerCal
  | lobbyDebugArrayPai
  | lobbyDebugCheckFanType
  | centerRegisterServer
  | centerDispatchGate
  | centerCreateDeskSucc
  | centerPlayerLeaveRoom
  | centerPlayerLogout
  | centerUpdatePlayerCoin
  | centerCreateRoomDeskSucc
  | centerRoomDeskDisband
  | centerRoomDeskGameEnd
  | centerServerPing
  | centerGmamePlayers
  | centerCreateZjhDeskSucc
  | centerCreateGradNiuDeskSucc
  | centerPlayerDeskIsRemove
  | centerGateFactor
  | centerDebugArrayPaiRes
  | centerDebugCheckFanTypeRes
  | coupleMoneyChange
  | logicCreateDesk
  | logicEnterNiuniuDesk
  | logicPlayerLeaveDesk
  | logicCreateRoomDesk
  | logicDisbandRoomDesk
  | logicUpdateMoney
  | logicReloadDynamic
  | logicReloadConfRoom
  | logicReloadConfPersonalRoom
  | logicRemoveDesk
  | logicRemoveServer
  | logicEnterGrabNiuDesk
  | logicDebugArrayPai
  | logicDebugCheckFanType
  | gateBroadCastMessage
  | gateKickPlayer
  | gateKickAllPlayer
  | gateRemoveServer
  | logAccount
  | logMoney
  | logOnline
  | logBank
  | logRemoveServer
  | loginReloadConf
  | loginRemoveServer
  | logicPlayerLogin
deriving DecidableEq

namespace RequestCode

def getValue : RequestCode → Int32
  | ping => 100
  | responseToCliientCode => -1
  | accountBegin => 100
  | accountLogin => 101
  | accountLoginResult => 102
  | formationEquip => 202
  | equipStrengthen => 201
  | equipWear => 202
  | heroStrengthen => 301
  | lobbyBegin => 512
  | lobbyEnterGame => 513
  | lobbyEnterGameRoom => 514
  | lobbyRankInfo => 515
  | lobbyFastGame => 516
  | lobbyLeaveDesk => 517
  | lobbySwitchOpponent => 518
  | lobbyPlayerLogout => 519
  | lobbyPlayerRelogin => 520
  | lobbyCreateRoomDesk => 521
  | lobbyEnterRoomDesk => 522
  | lobbyGetRoomInfo => 523
  | lobbyTransVoice => 524
  | lobbyDisbandDesk => 525
  | lobbyAgreeDisband => 526
  | lobbyRefuseDisband => 527
  | lobbyGetPeopleNum => 529
  | lobbyEnterModule => 530
  | lobbyExitModule => 531
  | lobbyGetRoomScoreList => 532
  | lobbyGetScoreDetail => 533
  | gameRecord => 534
  | lobbyZjhBeginGame => 535
  | mailBegin => 1024
  | mailAll => 1025
  | mailDelete => 1026
  | mailContactKefu => 1027
  | mailGainMail => 1028
  | mailReadMail => 1029
  | mailGetAllKefuMessage => 1030
  | mailSendAgentMessage => 1031
  | agentTransferRequest => 1032
  | agentTransferMessage => 1033
  | niuniuBegin => 1280
  | niuniuLowerChip => 1281
  | niuniuRobBanner => 1282
  | niuniuGiveUpBanner => 1283
  | niuniuCancelBanner => 1284
  | niuniuGetHisRecord => 1285
  | niuniuResetNiuniu => 1286
  | niuniuGetRankList => 1287
  | niuniuRenewed => 1288
  | xueniuBegin => 1536
  | xueniuChoseCardsSwitch => 1537
  | xueniuChoseType => 1538
  | xueniuGetDisbandInfo => 1539
  | ddzRobLord => 2049
  | ddzDiscardCard => 2050
  | ddzPass => 2051
  | ddzJiabei => 2052
  | ddzTuoguan => 2053
  | ddzCancelTuoguan => 2054
  | logicRoomGameStart => 2309
  | logicGiveUp => 2311
  | logicContinueGame => 2312
  | zjhAddGold => 2817
  | zjhLookCard => 2818
  | zjhCompareCard => 2819
  | zjhGiveUp => 2820
  | zjhShowCards => 2821
  | zjhAllGoldIn => 2823
  | zjhFullPressure => 2824
  | grabNiuGrabZhuang => 3074
  | grabNiuAddBet => 3075
  | grabNiuPlayerCal => 3076
  | lobbyDebugArrayPai => 4353
  | lobbyDebugCheckFanType => 4356
  | centerRegisterServer => 10101
  | centerDispatchGate => 10102
  | centerCreateDeskSucc => 10103
  | centerPlayerLeaveRoom => 10104
  | centerPlayerLogout => 10105
  | centerUpdatePlayerCoin => 10106
  | centerCreateRoomDeskSucc => 10107
  | centerRoomDeskDisband => 10108
  | centerRoomDeskGameEnd => 10109
  | centerServerPing => 10110
  | centerGmamePlayers => 10111
  | centerCreateZjhDeskSucc => 10112
  | centerCreateGradNiuDeskSucc => 10113
  | centerPlayerDeskIsRemove => 10114
  | centerGateFactor => 10115
  | centerDebugArrayPaiRes => 10116
  | centerDebugCheckFanTypeRes => 10117
  | coupleMoneyChange => 10300
  | logicCreateDesk => 10301
  | logicEnterNiuniuDesk => 10302
  | logicPlayerLeaveDesk => 10303
  | logicCreateRoomDesk => 10304
  | logicDisbandRoomDesk => 10305
  | logicUpdateMoney => 10306
  | logicReloadDynamic => 10307
  | logicReloadConfRoom => 10308
  | logicReloadConfPersonalRoom => 10309
  | logicRemoveDesk => 10310
  | logicRemoveServer => 10311
  | logicEnterGrabNiuDesk => 10312
  | logicDebugArrayPai => 10313
  | logicDebugCheckFanType => 10314
  | gateBroadCastMessage => 10500
  | gateKickPlayer => 10501
  | gateKickAllPlayer => 10502
  | gateRemoveServer => 10503
  | logAccount => 10600
  | logMoney => 10601
  | logOnline => 10602
  | logBank => 10603
  | logRemoveServer => 10604
  | loginReloadConf => 10700
  | loginRemoveServer => 10701
  | logicPlayerLogin => 0x1001

def getSendTo : RequestCode → AppId
  | ping | responseToCliientCode | accountLoginResult | gateBroadCastMessage | gateKickPlayer
  | gateKickAllPlayer | gateRemoveServer => .gate
  | accountLogin | lobbyEnterGame | lobbyEnterGameRoom | lobbyRankInfo | lobbyLeaveDesk
  | lobbySwitchOpponent | lobbyCreateRoomDesk | lobbyEnterRoomDesk | lobbyGetRoomInfo
  | lobbyTransVoice | lobbyDisbandDesk | lobbyAgreeDisband | lobbyRefuseDisband
  | lobbyGetPeopleNum | lobbyEnterModule | lobbyExitModule | lobbyGetRoomScoreList
  | lobbyGetScoreDetail | gameRecord | lobbyZjhBeginGame | mailAll | mailDelete
  | mailContactKefu | mailGainMail | mailReadMail | mailGetAllKefuMessage
  | mailSendAgentMessage | agentTransferRequest | agentTransferMessage | xueniuGetDisbandInfo
  | lobbyDebugArrayPai | lobbyDebugCheckFanType | centerRegisterServer | centerDispatchGate
  | centerCreateDeskSucc | centerPlayerLeaveRoom | centerPlayerLogout | centerUpdatePlayerCoin
  | centerCreateRoomDeskSucc | centerRoomDeskDisband | centerRoomDeskGameEnd | centerServerPing
  | centerGmamePlayers | centerCreateZjhDeskSucc | centerCreateGradNiuDeskSucc
  | centerPlayerDeskIsRemove | centerGateFactor | centerDebugArrayPaiRes
  | centerDebugCheckFanTypeRes => .center
  | logAccount | logMoney | logOnline | logBank | logRemoveServer => .log
  | loginReloadConf | loginRemoveServer => .login
  | _ => .logic

def values : List RequestCode :=
  [ping, responseToCliientCode, accountBegin, accountLogin, accountLoginResult, formationEquip,
    equipStrengthen, equipWear, heroStrengthen, lobbyBegin, lobbyEnterGame, lobbyEnterGameRoom,
    lobbyRankInfo, lobbyFastGame, lobbyLeaveDesk, lobbySwitchOpponent, lobbyPlayerLogout,
    lobbyPlayerRelogin, lobbyCreateRoomDesk, lobbyEnterRoomDesk, lobbyGetRoomInfo,
    lobbyTransVoice, lobbyDisbandDesk, lobbyAgreeDisband, lobbyRefuseDisband, lobbyGetPeopleNum,
    lobbyEnterModule, lobbyExitModule, lobbyGetRoomScoreList, lobbyGetScoreDetail, gameRecord,
    lobbyZjhBeginGame, mailBegin, mailAll, mailDelete, mailContactKefu, mailGainMail,
    mailReadMail, mailGetAllKefuMessage, mailSendAgentMessage, agentTransferRequest,
    agentTransferMessage, niuniuBegin, niuniuLowerChip, niuniuRobBanner, niuniuGiveUpBanner,
    niuniuCancelBanner, niuniuGetHisRecord, niuniuResetNiuniu, niuniuGetRankList, niuniuRenewed,
    xueniuBegin, xueniuChoseCardsSwitch, xueniuChoseType, xueniuGetDisbandInfo, ddzRobLord,
    ddzDiscardCard, ddzPass, ddzJiabei, ddzTuoguan, ddzCancelTuoguan, logicRoomGameStart,
    logicGiveUp, logicContinueGame, zjhAddGold, zjhLookCard, zjhCompareCard, zjhGiveUp,
    zjhShowCards, zjhAllGoldIn, zjhFullPressure, grabNiuGrabZhuang, grabNiuAddBet,
    grabNiuPlayerCal, lobbyDebugArrayPai, lobbyDebugCheckFanType, centerRegisterServer,
    centerDispatchGate, centerCreateDeskSucc, centerPlayerLeaveRoom, centerPlayerLogout,
    centerUpdatePlayerCoin, centerCreateRoomDeskSucc, centerRoomDeskDisband,
    centerRoomDeskGameEnd, centerServerPing, centerGmamePlayers, centerCreateZjhDeskSucc,
    centerCreateGradNiuDeskSucc, centerPlayerDeskIsRemove, centerGateFactor,
    centerDebugArrayPaiRes, centerDebugCheckFanTypeRes, coupleMoneyChange, logicCreateDesk,
    logicEnterNiuniuDesk, logicPlayerLeaveDesk, logicCreateRoomDesk, logicDisbandRoomDesk,
    logicUpdateMoney, logicReloadDynamic, logicReloadConfRoom, logicReloadConfPersonalRoom,
    logicRemoveDesk, logicRemoveServer, logicEnterGrabNiuDesk, logicDebugArrayPai,
    logicDebugCheckFanType, gateBroadCastMessage, gateKickPlayer, gateKickAllPlayer,
    gateRemoveServer, logAccount, logMoney, logOnline, logBank, logRemoveServer,
    loginReloadConf, loginRemoveServer, logicPlayerLogin]

def getByValue (value : Int32) : RequestCode :=
  (values.find? fun code => code.getValue = value).getD responseToCliientCode

variable {value : Int32}


def bytes : List RequestCode :=
  [ping, responseToCliientCode, accountBegin, accountLogin, accountLoginResult, formationEquip, equipStrengthen,
    equipWear]

theorem find?_values (h : value.toInt < 256)
    : values.find? (fun code => code.getValue = value) = bytes.find? (fun code => code.getValue = value) := by
  have hbytes : bytes = values.filter fun code => code.getValue.toInt < 256 := by decide
  rw [hbytes, List.find?_filter]
  congr 1
  funext code
  by_cases hcode : code.getValue = value
  . simp [hcode, h]
  . simp [hcode]

theorem getByValue_byte (h : value.toInt < 256)
    : getByValue value
        = if value = 100 then .ping else if value = 101 then .accountLogin
          else if value = 102 then .accountLoginResult else if value = 202 then .formationEquip
          else if value = 201 then .equipStrengthen else .responseToCliientCode := by
  rw [getByValue, find?_values h]
  split_ifs with h₁ h₂ h₃ h₄ h₅
  . subst h₁
    rfl
  . subst h₂
    rfl
  . subst h₃
    rfl
  . subst h₄
    rfl
  . subst h₅
    rfl
  . by_cases h₆ : value = -1
    . subst h₆
      rfl
    . have hnone : bytes.find? (fun code => code.getValue = value) = none := by
        simp [bytes, getValue, eq_comm (b := value), h₁, h₂, h₃, h₄, h₅, h₆]
      rw [hnone]
      rfl

theorem getSendTo_byte (h : value.toInt < 256)
    : (getByValue value).getSendTo
        = if value = 101 then .center else if value = 202 ∨ value = 201 then .logic else .gate := by
  rw [getByValue_byte h]
  split_ifs with h₁ h₂ h₃ h₄ h₅ <;> simp_all [getSendTo]

end RequestCode

end WzGame
