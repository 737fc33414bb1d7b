import FizzDns.Cache.Invariant
import FizzDns.Cache.Interleaving
import FizzDns.Cache.FilterCount
import FizzDns.Cache.Statistics
import FizzDns.Cache.Freshness
import FizzDns.Cache.Progress
import FizzDns.Cache.Counters
import FizzDns.Msg.Bailiwick
import FizzDns.Msg.Query
import FizzDns.Msg.Edns
import FizzDns.Msg.Echo
import FizzDns.Msg.Stores
import FizzDns.Resolver.Provenance
import FizzDns.Resolver.Referral
import FizzDns.Resolver.Completeness
import FizzDns.Resolver.ChainOrder
import FizzDns.Resolver.AnswerTypes
import FizzDns.Resolver.Endless
import FizzDns.Resolver.Checked
import FizzDns.Resolver.Txid
import FizzDns.Backend.TcpReply
import FizzDns.Backend.Agreement
import FizzDns.Backend.Stub
import FizzDns.Backend.Service
import FizzDns.Udp.Replies
import FizzDns.Tcp.Replies
import FizzDns.Tcp.Shutdown
import FizzDns.Xdp.Conservation
import FizzDns.Xdp.Teardown
import FizzDns.Xdp.Answers
import FizzDns.Xdp.Counters
import FizzDns.Lifecycle.Main
