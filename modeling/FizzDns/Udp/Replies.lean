import FizzDns.Backend.Contract
import FizzDns.Udp.Shutdown
import FizzDns.Xdp.Frame

/-!
# What the UDP server sends

With `dns_resolve_query` as the backend: every reply that goes out goes to the sender of a datagram
and answers the query in it, no datagram is answered twice, and what is counted as dropped for a
parse error is just what `dns_parse_query` rejects.
-/

namespace FizzDns.Udp

variable {β σ : Type} {bloom : BloomOps β} {law : FilterLaw bloom}

/-- `dns_resolve_query` as the workers of the server call it. -/
def resolveUdp (law : FilterLaw bloom) (ask : Ask σ) (roots : List Bytes) (moment : Moment law σ)
    (query : Bytes) : Option Bytes :=
  moment.resolve ask roots true dnsMaxMsgLen query

/-- Every datagram is handled at most once. A datagram that a reply was made for, whether it could
be sent or not, holds a query that the reply answers; any other that was handled holds none. -/
theorem udp_replies_answer {numWorkers : Nat} (ask : Ask σ) (roots : List Bytes)
    {events : List (Event (Moment law σ) numWorkers)} {s : Server numWorkers}
    (done : Schedule.run (Server.step (resolveUdp law ask roots)) events (.start numWorkers) =
      some s) :
    (s.handled.map Prod.fst : Multiset UdpJob) ≤ s.received ∧
      ∀ job fate, (job, fate) ∈ s.handled →
        match fate with
        | .answered reply => IsReply true dnsMaxMsgLen job.msg reply
        | .unsent reply => IsReply true dnsMaxMsgLen job.msg reply
        | .unparsed => dnsParseQuery job.msg job.msg.length = none := by
  have accounted := (reachable done).1
  refine ⟨?_, fun job fate member => ?_⟩
  · rw [accounted.places]
    exact Multiset.le_add_left _ _
  · have right := accounted.fates _ member
    have replied : ∀ reply, BackendReplied (resolveUdp law ask roots) job reply →
        IsReply true dnsMaxMsgLen job.msg reply := by
      rintro reply ⟨moment, answered, _⟩
      exact Moment.isReply_of_resolve (by decide) (by decide) answered
    cases fate with
    | answered reply => exact replied reply right
    | unsent reply => exact replied reply right
    | unparsed =>
        obtain ⟨moment, unanswered⟩ := right
        rcases moment.resolve_cases ask roots true dnsMaxMsgLen (by decide) (by decide) job.msg with
          ⟨rejected, _⟩ | ⟨reply, same, isReply⟩
        · exact rejected
        · exact absurd (unanswered reply same) (Nat.ne_of_gt isReply.length_pos)

/-- How many records the reply has that was sent. -/
def Fate.recordCount : Fate → Option UInt16
  | .answered reply => (dnsParseHeader reply reply.length).map DnsHeader.ancount
  | _ => none

/-- One query, and a worker that is asleep when it comes. -/
def oneQuery (w : Fin 3) : List (Event (Moment disabledLaw Unit) 3) :=
  [.pop w, .receive ⟨1, 1024⟩ queryForB, .push, .signal (some w), .pop w, .resolve w emptyMoment,
    .send w true]

/-- The query is answered, with one record. -/
theorem udp_replies_answer_example :
    ∃ s job reply,
      Schedule.run (Server.step (resolveUdp disabledLaw addressAsk [inetNtop fun _ => 1]))
        (oneQuery 0) (.start 3) = some s ∧
      s.handled = [(job, .answered reply)] ∧ IsReply true dnsMaxMsgLen job.msg reply ∧
      (dnsParseHeader reply reply.length).map DnsHeader.ancount = some 1 := by
  have ran : (Schedule.run (Server.step (resolveUdp disabledLaw addressAsk [inetNtop fun _ => 1]))
      (oneQuery 0) (.start 3)).map (fun s => s.handled.map (·.2.recordCount)) =
        some [some 1] := by
    decide +kernel
  obtain ⟨s, done, fates⟩ := Option.map_eq_some_iff.mp ran
  obtain ⟨⟨job, fate⟩, rest, handled, answered, none⟩ := List.map_eq_cons_iff.mp fates
  obtain rfl := List.map_eq_nil_iff.mp none
  cases fate with
  | answered reply =>
      have right := (udp_replies_answer _ _ done).2 job (.answered reply) (by simp [handled])
      exact ⟨s, job, reply, done, handled, right, answered⟩
  | unsent reply => cases answered
  | unparsed => cases answered

end FizzDns.Udp
