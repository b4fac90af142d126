import IngestKit.Benchmark.Report
import IngestKit.Transition.Runs

/-! The connection recorder. Every section under its lock is one step; the hooks of the traced
requests, the dials, the closes and the windows may come in any order. -/
namespace IngestKit.Benchmark

/-- The recorder's snapshot with the counts that no report reads back. -/
structure RecorderState extends ConnectionSnapshot where
  dials : ℤ
  reused : ℤ
  peakWaitingForConnection : ℤ
  tlsVersions : List (String × ℤ)

/-- `m[key]++` -/
def increment (m : List (String × ℤ)) (key : String) : List (String × ℤ) :=
  if key ∈ m.map Prod.fst then m.map fun p => if p.1 = key then (key, p.2 + 1) else p
  else m ++ [(key, 1)]

/-- What `errors.Is` and `errors.As` find in the error of a request. -/
structure TransportError where
  fdLimit : Bool
  addressUnavailable : Bool
  connectionRefused : Bool
  canceled : Bool
  timeout : Bool
  dns : Bool

def connectionErrorClass (e : TransportError) : String :=
  if e.fdLimit then "fd_limit"
  else if e.addressUnavailable then "address_unavailable"
  else if e.connectionRefused then "connection_refused"
  else if e.canceled then "cancelled"
  else if e.timeout then "timeout"
  else if e.dns then "dns"
  else "other"

def protocolName (proto : String) : String :=
  if proto ≠ "HTTP/1.1" ∧ proto ≠ "HTTP/2.0" ∧ proto ≠ "HTTP/1.0" then "other" else proto

inductive Network
  | tcp | tcp4 | tcp6 | other
  deriving DecidableEq

/-- The variables that the hooks of one request share. -/
structure TracedRequest where
  began : ℤ := 0
  waiting : Bool := false
  finished : Bool := false

/-- `conns` says of each tracked connection whether it was closed. -/
structure ConnectionRecorder where
  state : RecorderState
  dialing : ℕ
  conns : List Bool
  requests : List TracedRequest

namespace ConnectionRecorder

def new : ConnectionRecorder where
  state := ⟨⟨0, 0, 0, 0, 0, 0, 0, 0, [], [], .notConfigured⟩, 0, 0, 0, []⟩
  dialing := 0
  conns := []
  requests := []

inductive Action
  | wrapTransport (maxConnsPerHost maxIdleConnsPerHost : ℕ) (customTLSDial : Bool)
  | dial
  | dialed (network : Option Network)
  | close (i : ℕ)
  | traceRequest
  | getConn (q : ℕ) (now : ℤ)
  | gotConn (q : ℕ) (reused : Bool) (now : ℤ)
  | tlsHandshakeDone (version : Option String)
  | finish (q : ℕ) (proto : Option String) (err : Option TransportError) (now : ℤ)
  | beginWindow

def wrapTransport (r : ConnectionRecorder) (maxConns maxIdle : ℕ) (customTLSDial : Bool) :
    ConnectionRecorder :=
  { r with state.maxConnsPerHost := maxConns
           state.maxIdleConnsPerHost := if maxIdle = 0 then 2 else maxIdle
           state.tcpTrackingStatus := if customTLSDial then .unavailable else .transportOwned }

/-- A dial returns; connections of other networks are not tracked. -/
def dialed (r : ConnectionRecorder) : Option Network → Option ConnectionRecorder
  | none => if 0 < r.dialing then some { r with dialing := r.dialing - 1 } else none
  | some network =>
    if 0 < r.dialing then
      let r := { r with dialing := r.dialing - 1 }
      if network = .other then some r
      else some { r with
        state.openTCP := r.state.openTCP + 1
        state.peakOpenTCP := max r.state.peakOpenTCP (r.state.openTCP + 1)
        conns := r.conns ++ [false] }
    else none

/-- Only the first `Close` of a connection is counted. -/
def close (r : ConnectionRecorder) (i : ℕ) : Option ConnectionRecorder :=
  match r.conns[i]? with
  | none => none
  | some true => some r
  | some false =>
    some { r with state.openTCP := r.state.openTCP - 1, conns := r.conns.set i true }

def traceRequest (r : ConnectionRecorder) : ConnectionRecorder :=
  { r with
    state.activeRequests := r.state.activeRequests + 1
    state.peakActiveRequests := max r.state.peakActiveRequests (r.state.activeRequests + 1)
    requests := r.requests ++ [{}] }

/-- The transport asks for a connection only before the request is finished. -/
def getConn (r : ConnectionRecorder) (q : ℕ) (now : ℤ) : Option ConnectionRecorder :=
  match r.requests[q]? with
  | none => none
  | some t =>
    if t.finished then none
    else if t.waiting then some r
    else some { r with
      state.waitingForConnection := r.state.waitingForConnection + 1
      state.peakWaitingForConnection :=
        max r.state.peakWaitingForConnection (r.state.waitingForConnection + 1)
      requests := r.requests.set q { t with waiting := true, began := now } }

/-- The request stops waiting, if it was. -/
def stopWaiting (r : ConnectionRecorder) (q : ℕ) (t : TracedRequest) (now : ℤ) :
    ConnectionRecorder :=
  if t.waiting then
    { r with
      state.waitingForConnection := r.state.waitingForConnection - 1
      state.connectionAcquireNS := r.state.connectionAcquireNS + (now - t.began)
      requests := r.requests.set q { t with waiting := false } }
  else r

def gotConn (r : ConnectionRecorder) (q : ℕ) (reused : Bool) (now : ℤ) :
    Option ConnectionRecorder :=
  match r.requests[q]? with
  | none => none
  | some t =>
    let r := r.stopWaiting q t now
    some (if reused then { r with state.reused := r.state.reused + 1 } else r)

/-- Only the first call finishes the request. -/
def finish (r : ConnectionRecorder) (q : ℕ) (proto : Option String) (err : Option TransportError)
    (now : ℤ) : Option ConnectionRecorder :=
  match r.requests[q]? with
  | none => none
  | some t =>
    if t.finished then some r
    else
      let r := { r with state.activeRequests := r.state.activeRequests - 1 }
      let r := r.stopWaiting q t now
      some { r with
        state.protocols := proto.elim r.state.protocols (increment r.state.protocols ∘ protocolName)
        state.errors := err.elim r.state.errors (increment r.state.errors ∘ connectionErrorClass)
        requests := r.requests.set q { t with waiting := false, finished := true } }

/-- Warm-up counts are dropped, open sockets are kept. To be called between windows only. -/
def beginWindow (r : ConnectionRecorder) : Option ConnectionRecorder :=
  if r.requests.all (·.finished) then
    some { r with state := ⟨⟨0, 0, r.state.openTCP, r.state.openTCP, 0, 0, r.state.maxConnsPerHost,
      r.state.maxIdleConnsPerHost, [], [], r.state.tcpTrackingStatus⟩, 0, 0, 0, []⟩ }
  else none

def step (r : ConnectionRecorder) : Action → Option ConnectionRecorder
  | .wrapTransport maxConns maxIdle customTLSDial =>
    some (r.wrapTransport maxConns maxIdle customTLSDial)
  | .dial => some { r with state.dials := r.state.dials + 1, dialing := r.dialing + 1 }
  | .dialed network => r.dialed network
  | .close i => r.close i
  | .traceRequest => some r.traceRequest
  | .getConn q now => r.getConn q now
  | .gotConn q reused now => r.gotConn q reused now
  | .tlsHandshakeDone version =>
    some { r with state.tlsVersions :=
      version.elim r.state.tlsVersions (increment r.state.tlsVersions) }
  | .finish q proto err now => r.finish q proto err now
  | .beginWindow => r.beginWindow

end ConnectionRecorder

end IngestKit.Benchmark
