import FizzDns.Msg.Build

/-!
# One round trip to an upstream server

`query_server` sends a question and reads datagrams until one of them is a reply to it or
the socket times out. What the socket delivers before the timeout is the argument.

Every check of a full header and of the question leads back to `recv`, but a datagram that
is too short for a header ends the call. So the first reply is what is returned if and only
if no such datagram comes before it (`queryServer_first_iff`); one empty datagram is enough
to suppress a genuine reply (`short_datagram_denies`).
-/

namespace FizzDns

/-- `MSG_BUF`. -/
def msgBuf : Nat := 1500

/-- What `recv` reports before the timeout: a datagram, or an interruption by a signal. -/
inductive Received where
  | datagram (bytes : Bytes)
  | interrupted
  deriving DecidableEq

/-- The receive loop of `query_server`. `recv` cuts a datagram to the buffer; when nothing
more is delivered, it times out. -/
def receiveLoop (txid : UInt16) (name : DnsName) (qtype : UInt16) : List Received → Option Bytes
  | [] => none
  | .interrupted :: rest => receiveLoop txid name qtype rest
  | .datagram bytes :: rest =>
      let resp := bytes.take msgBuf
      match dnsParseHeader resp resp.length with
      | none => none
      | some h =>
          if h.id ≠ txid ∨ h.flags &&& dnsFlagQr = 0 then receiveLoop txid name qtype rest
          else if h.qdcount ≠ 1 then receiveLoop txid name qtype rest
          else
            match decodeName resp resp.length dnsHdrLen with
            | none => receiveLoop txid name qtype rest
            | some (rname, qoff) =>
                if qoff + 4 > resp.length then receiveLoop txid name qtype rest
                else if rd16 resp qoff ≠ qtype then receiveLoop txid name qtype rest
                else if rd16 resp (qoff + 2) ≠ dnsClassIn then receiveLoop txid name qtype rest
                else if dnsNameEqual rname.chars name.chars = false then
                  receiveLoop txid name qtype rest
                else some resp

/-- `query_server`, with the transaction id drawn by `next_txid` and whether the socket could
be connected and written to. -/
def queryServer (txid : Option UInt16) (connected : Bool) (name : DnsName) (qtype : UInt16)
    (delivered : List Received) : Option Bytes :=
  match txid with
  | none => none
  | some txid =>
      match dnsBuildQuery txid name.chars qtype false dnsEdnsOurUdpPayload msgBuf with
      | none => none
      | some _ => if connected then receiveLoop txid name qtype delivered else none

/-! ## Replies -/

/-- The datagrams of a delivery as they are received. -/
def datagrams (delivered : List Received) : List Bytes :=
  delivered.filterMap fun
    | .datagram bytes => some (bytes.take msgBuf)
    | .interrupted => none

@[simp] theorem datagrams_nil : datagrams [] = [] := rfl

@[simp] theorem datagrams_interrupted (rest : List Received) :
    datagrams (.interrupted :: rest) = datagrams rest := rfl

@[simp] theorem datagrams_datagram (bytes : Bytes) (rest : List Received) :
    datagrams (.datagram bytes :: rest) = bytes.take msgBuf :: datagrams rest := rfl

/-- The first question of a message asks for the name and type in class IN. -/
def asksFor (name : DnsName) (qtype : UInt16) (msg : Bytes) : Bool :=
  match decodeName msg msg.length dnsHdrLen with
  | none => false
  | some (rname, qoff) =>
      decide (qoff + 4 ≤ msg.length ∧ rd16 msg qoff = qtype ∧ rd16 msg (qoff + 2) = dnsClassIn) &&
        dnsNameEqual rname.chars name.chars

/-- A reply to the query: a full header with its id and QR set, and its one question. -/
def isReply (txid : UInt16) (name : DnsName) (qtype : UInt16) (msg : Bytes) : Bool :=
  match dnsParseHeader msg msg.length with
  | none => false
  | some h =>
      decide (h.id = txid ∧ h.flags &&& dnsFlagQr ≠ 0 ∧ h.qdcount = 1) && asksFor name qtype msg

variable {txid qtype : UInt16} {name : DnsName}

/-- A reply has a full header. -/
theorem isReply_of_short {msg : Bytes} (short : msg.length < dnsHdrLen) :
    isReply txid name qtype msg = false := by
  simp [isReply, dnsParseHeader, short]

/-- What one datagram does to the loop. -/
theorem receiveLoop_datagram (bytes : Bytes) (rest : List Received) :
    receiveLoop txid name qtype (.datagram bytes :: rest) =
      if (bytes.take msgBuf).length < dnsHdrLen then none
      else if isReply txid name qtype (bytes.take msgBuf) then some (bytes.take msgBuf)
      else receiveLoop txid name qtype rest := by
  rw [receiveLoop]
  generalize bytes.take msgBuf = resp
  by_cases short : resp.length < dnsHdrLen
  · simp [dnsParseHeader, short]
  · simp only [isReply, asksFor, dnsParseHeader, short, ↓reduceIte]
    cases decodeName resp resp.length dnsHdrLen with
    | none => grind
    | some decoded => grind

/-- The loop returns the first reply if there is none, or if what comes before it has full
headers. -/
theorem receiveLoop_first_iff (delivered : List Received) :
    receiveLoop txid name qtype delivered =
        (datagrams delivered).find? (isReply txid name qtype) ↔
      (∀ msg ∈ datagrams delivered, isReply txid name qtype msg = false) ∨
      ∀ msg ∈ (datagrams delivered).takeWhile (!isReply txid name qtype ·),
        dnsHdrLen ≤ msg.length := by
  induction delivered with
  | nil => simp [receiveLoop]
  | cons event rest ih =>
      cases event with
      | interrupted => simpa only [receiveLoop, datagrams_interrupted] using ih
      | datagram bytes =>
          rw [receiveLoop_datagram, datagrams_datagram]
          by_cases short : (bytes.take msgBuf).length < dnsHdrLen
          · -- the loop ends here, which is right only if no reply would have followed
            rw [if_pos short, List.find?_cons_of_neg (by simp [isReply_of_short short]), eq_comm,
              List.find?_eq_none, List.takeWhile_cons_of_pos (by simp [isReply_of_short short])]
            simp only [List.forall_mem_cons, isReply_of_short short, Nat.not_le.mpr short,
              false_and, or_false, true_and, Bool.not_eq_true]
          rw [if_neg short]
          cases reply : isReply txid name qtype (bytes.take msgBuf) with
          | true => simp [reply]
          | false =>
              rw [if_neg (by simp), List.find?_cons_of_neg (by simp [reply]), ih,
                List.takeWhile_cons_of_pos (by simp [reply])]
              simp only [List.forall_mem_cons, reply, Nat.not_lt.mp short, true_and]

/-- **The first reply.** For every delivery, `query_server` returns the first reply among the
datagrams, or fails for want of one, if and only if there is no reply, or the query can be
sent and every datagram before the first reply has a full header. -/
theorem queryServer_first_iff (txid : UInt16) (name : DnsName) (qtype : UInt16)
    (delivered : List Received) :
    queryServer (some txid) true name qtype delivered =
        (datagrams delivered).find? (isReply txid name qtype) ↔
      (∀ msg ∈ datagrams delivered, isReply txid name qtype msg = false) ∨
      (dnsBuildQuery txid name.chars qtype false dnsEdnsOurUdpPayload msgBuf).isSome ∧
        ∀ msg ∈ (datagrams delivered).takeWhile (!isReply txid name qtype ·),
          dnsHdrLen ≤ msg.length := by
  cases built : dnsBuildQuery txid name.chars qtype false dnsEdnsOurUdpPayload msgBuf with
  | none =>
      simp only [queryServer, built, Option.isSome_none, Bool.false_eq_true, false_and, or_false]
      rw [eq_comm, List.find?_eq_none]
      simp only [Bool.not_eq_true]
  | some sent =>
      simp only [queryServer, built, ↓reduceIte, Option.isSome_some, true_and]
      exact receiveLoop_first_iff delivered

/-- A reply to a query for the address of "a". -/
def replyForA : Bytes :=
  [0, 7, 0x80, 0, 0, 1, 0, 0, 0, 0, 0, 0, 1, 97, 0, 0, 1, 0, 1]

/-- An empty datagram suppresses the genuine reply behind it. -/
theorem short_datagram_denies :
    isReply 7 (DnsName.ofText [97]) dnsTypeA replyForA = true ∧
    queryServer (some 7) true (DnsName.ofText [97]) dnsTypeA [.datagram replyForA] =
      some replyForA ∧
    queryServer (some 7) true (DnsName.ofText [97]) dnsTypeA [.datagram [], .datagram replyForA] =
      none := by
  decide

end FizzDns
