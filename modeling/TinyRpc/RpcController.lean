/-
TinyRpc/RpcController.lean

The error codes, and the controller through which both sides of a call report
what became of it.  Its addresses are left out: they are only logged.
-/
import TinyRpc.Protocol

namespace TinyRpc

/-! ### Error codes -/

def errorPeerClosed : Int32 := 10000000
def errorFailedConnect : Int32 := 10000001
def errorFailedDeserialize : Int32 := 10000003
def errorFailedSerialize : Int32 := 10000004
def errorRpcCallTimeout : Int32 := 10000007
def errorServiceNotFound : Int32 := 10000008
def errorMethodNotFound : Int32 := 10000009
def errorParseServiceName : Int32 := 10000010
def errorRpcChannelNotInit : Int32 := 10000011

/-- The bytes of a text of the source. -/
def text (s : String) : List UInt8 := s.toUTF8.data.toList

/-! ### The controller -/

structure RpcController where
  errorCode : Int32 := 0
  errorInfo : List UInt8 := []
  msgId : List UInt8 := []
  isFailed : Bool := false
  isCancled : Bool := false
  timeoutMs : Int32 := 1000
  deriving DecidableEq

namespace RpcController

def startCancel (c : RpcController) : RpcController := { c with isCancled := true }

def isCanceled (c : RpcController) : Bool := c.isCancled

def setMsgId (c : RpcController) (msgId : List UInt8) : RpcController := { c with msgId := msgId }

def failed (c : RpcController) : Bool := c.isFailed

/-- `SetFailed` takes the reason, and does not mark the call as failed. -/
def setFailed (c : RpcController) (reason : List UInt8) : RpcController :=
  { c with errorInfo := reason }

/-- `set_error` marks the call as failed. -/
def setError (c : RpcController) (errorCode : Int32) (errorInfo : List UInt8) : RpcController :=
  { c with errorCode := errorCode, errorInfo := errorInfo, isFailed := true }

@[simp] theorem setError_isCancled (c : RpcController) (code : Int32) (info : List UInt8) :
    (c.setError code info).isCancled = c.isCancled := rfl

end RpcController

end TinyRpc
