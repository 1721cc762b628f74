import Fix42.Guardian.FixHelper

/-!
# The messages of the test tool

The enumerations and the message classes of `FixGuardian.Messages`, with their attributes.
-/

namespace Fix42

namespace Guardian

/-! ## Enumerations -/

/-- Constants numbered from `first` on, the later ones with an `EnumMember` value. -/
def numbered (first : Int) (names : List String) (members : List (String × String) := []) :
    List EnumConstant :=
  let all : List (String × Option String) :=
    names.map (·, none) ++ members.map fun c => (c.1, some c.2)
  all.zipIdx.map fun c => ⟨c.1.1, first + c.2, c.1.2⟩

/-- An enumeration whose constants keep what `EnumType` asks for. -/
def EnumType.of (name : String) (constants : List EnumConstant)
    (h : (constants.map EnumConstant.value).Nodup ∧
      (constants.map fun c => c.key.map upper).Nodup ∧
      (∀ c ∈ constants, 0 ≤ c.value ∧ c.value < 2 ^ 31) ∧
      ∀ c ∈ constants, ∀ s ∈ c.member, text s ≠ [] ∧ NoSeparator (text s) ∧
        (text s).any isDigit = false) : EnumType where
  name := name
  constants := constants
  values := h.1
  keys := h.2.1
  range := h.2.2.1
  members c hc s hs := (h.2.2.2 c hc s hs).imp id (And.imp id noDigit_of_any)

def cancelRejectReason : EnumType :=
  .of "CancelRejectReason"
    (numbered 0 ["TooLate", "UnknownOrder", "BrokerOption", "OrderPendingCancelorReplace"])
    (by decide +kernel)

def cancelRejectResponseTo : EnumType :=
  .of "CancelRejectResponseTo" (numbered 1 ["CancelRequest", "ReplaceRequest"]) (by decide +kernel)

def encryptionMethod : EnumType :=
  .of "EncryptionMethod"
    (numbered 0 ["None", "PKCS", "DES", "PKCSDES", "PGPDES", "PGPDESMD5", "PEMDESMD5"])
    (by decide +kernel)

def executionType : EnumType :=
  .of "ExecutionType"
    (numbered 0
      ["New", "PartiallyFilled", "Filled", "DoneForDay", "Canceled", "Replaced", "PedningCancel",
        "Stopped", "Rejected", "Suspended"]
      [("PendingNew", "A"), ("Caluclated", "B"), ("Expired", "C"), ("Restated", "D"),
        ("PendingReplace", "E")])
    (by decide +kernel)

def handleInstance : EnumType :=
  .of "HandleInstance" (numbered 1 ["AutoPrivate", "AutoPublic", "Manual"]) (by decide +kernel)

def orderRejectReason : EnumType :=
  .of "OrderRejectReason"
    (numbered 0
      ["BrokerOption", "UnknowSymbol", "ExchangeClose", "OrderExceedLimit", "TooLate",
        "UnknownOrder", "Duplicate", "DuplicateVerbally", "StaleOrder"])
    (by decide +kernel)

def orderStatus : EnumType :=
  .of "OrderStatus"
    (numbered 0
      ["New", "PartiallyFilled", "Filled", "DoneForDay", "Canceled", "Replaced", "PedningCancel",
        "Stopped", "Rejected", "Suspended"]
      [("PendingNew", "A"), ("Caluclated", "B"), ("Expired", "C"), ("AcceptedBidding", "D"),
        ("PendingReplace", "E")])
    (by decide +kernel)

def orderType : EnumType :=
  .of "OrderType"
    (numbered 1
      ["Market", "Limit", "Stop", "StopLimit", "MarketOnClose", "WithOrWithout", "LimitOrBetter",
        "LimitWithOrWithout", "OnBasis"]
      [("OnClose", "A"), ("LimitOnClose", "B"), ("ForexMarket", "C"), ("PrevQuoted", "D"),
        ("PrevIndicated", "E"), ("ForexLimit", "F"), ("ForexSwap", "G"), ("ForexPrevQuoted", "H"),
        ("Funari", "I"), ("Pegged", "P")])
    (by decide +kernel)

def rejectReasonBusiness : EnumType :=
  .of "RejectReasonBusiness"
    (numbered 0
      ["Other", "UnknownId", "UnknownSecurity", "UnsupportedMsgType", "AppNotAvailable",
        "CondReqFieldMissing"])
    (by decide +kernel)

def rejectReasonSession : EnumType :=
  .of "RejectReasonSession"
    (numbered 1
      ["InvalidTagNum", "RequiredTagMissing", "TagNotDefine", "UndefineTag", "TagWithoutValue",
        "ValueOutOfRange", "IncorrectDataFormat", "SignatureProblem", "CompIDProblem",
        "SendingTimeAccuracy", "InvalidMsgType"])
    (by decide +kernel)

def tradeSide : EnumType :=
  .of "TradeSide"
    (numbered 1
      ["Buy", "Sell", "BuyMinus", "SellPlus", "SellShort", "SellShortExempt", "Undisclosed",
        "Cross", "CrossShort"])
    (by decide +kernel)

def transactionType : EnumType :=
  .of "TransactionType" (numbered 0 ["New", "Cancel", "Correct", "Status"]) (by decide +kernel)

/-! ## Classes -/

/-- A property under `OptionalTag`. -/
def optional (name : String) (tagId : UInt16) (kind : Kind) : Property :=
  { name, tagId, kind, optionalTag := true }

def businessMessageReject : MessageClass where
  name := "BusinessMessageReject"
  properties :=
    [optional "RefSeqNum" 45 .uint, { name := "RefMsgType", tagId := 372, kind := .char },
      optional "BusinessRejectRefId" 379 .string,
      { name := "BusinessRejectReason", tagId := 380, kind := .enum rejectReasonBusiness },
      optional "Text" 58 .string]
  distinct := by decide +kernel

def executionReport : MessageClass where
  name := "ExecutionReport"
  properties :=
    [{ name := "OrderID", tagId := 37, kind := .string }, optional "ClOrdID" 11 .string,
      { name := "ExecId", tagId := 17, kind := .string },
      { name := "ExecTransType", tagId := 20, kind := .enum transactionType },
      { name := "ExecType", tagId := 150, kind := .enum executionType },
      { name := "OrdStatus", tagId := 39, kind := .enum orderStatus },
      optional "OrdRejReason" 103 (.enum orderRejectReason),
      { name := "Symbol", tagId := 55, kind := .string },
      { name := "Side", tagId := 54, kind := .enum tradeSide },
      optional "OrderQty" 38 .single, optional "OrdType" 40 (.enum orderType),
      optional "Price" 44 .single, { name := "LeavesQty", tagId := 151, kind := .single },
      optional "LastShares" 32 .single, optional "LastPx" 31 .single,
      { name := "CumQty", tagId := 14, kind := .single },
      { name := "AvgPx", tagId := 6, kind := .single }, optional "Text" 58 .string]
  distinct := by decide +kernel

def heartBeat : MessageClass where
  name := "HeartBeat"
  properties := [optional "TestReqId" 112 .string]
  distinct := by decide +kernel

def logon : MessageClass where
  name := "Logon"
  properties :=
    [{ name := "EncryptMethod", tagId := 98, kind := .enum encryptionMethod },
      { name := "HeartBtInt", tagId := 108, kind := .uint }]
  distinct := by decide +kernel

def logout : MessageClass where
  name := "Logout"
  properties := []
  distinct := by decide +kernel

def newOrderSingle : MessageClass where
  name := "NewOrderSingle"
  properties :=
    [{ name := "ClOrdId", tagId := 11, kind := .string },
      { name := "HandlInst", tagId := 21, kind := .enum handleInstance },
      { name := "Symbol", tagId := 55, kind := .string },
      { name := "Side", tagId := 54, kind := .enum tradeSide }, optional "OrderQty" 38 .single,
      { name := "OrdType", tagId := 40, kind := .enum orderType }, optional "Price" 44 .single]
  distinct := by decide +kernel

def orderCancelReject : MessageClass where
  name := "OrderCancelReject"
  properties :=
    [{ name := "OrderId", tagId := 37, kind := .string },
      { name := "OrigClOrdId", tagId := 41, kind := .string },
      { name := "OrdStatus", tagId := 39, kind := .enum orderStatus },
      { name := "CxlRejResponseTo", tagId := 434, kind := .enum cancelRejectResponseTo },
      optional "CxlRejReason" 102 (.enum cancelRejectReason), optional "Text" 58 .string]
  distinct := by decide +kernel

def orderCancelRequest : MessageClass where
  name := "OrderCancelRequest"
  properties :=
    [{ name := "OrigClOrdID", tagId := 41, kind := .string }, optional "OrderID" 37 .string,
      { name := "ClOrdId", tagId := 11, kind := .string },
      { name := "Symbol", tagId := 55, kind := .string },
      { name := "Side", tagId := 54, kind := .enum tradeSide },
      { name := "TransactTime", tagId := 60, kind := .dateTime }, optional "OrderQty" 38 .single]
  distinct := by decide +kernel

def sessionReject : MessageClass where
  name := "SessionReject"
  properties :=
    [{ name := "RefSeqNum", tagId := 45, kind := .uint }, optional "RefTagId" 371 .ushort,
      optional "RefMsgType" 372 .char,
      optional "SessionRejectReason" 373 (.enum rejectReasonSession), optional "Text" 58 .string]
  distinct := by decide +kernel

def testRequest : MessageClass where
  name := "TestRequest"
  properties := [{ name := "TestReqId", tagId := 112, kind := .string }]
  distinct := by decide +kernel

end Guardian

end Fix42
