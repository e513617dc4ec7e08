import PjProject.Runs
import PjProject.Intervals
import PjProject.TimeVal
import PjProject.RwMutex
import PjProject.MemoryPool
import PjProject.MemoryPoolSafety
import PjProject.IoqueueKey
import PjProject.Ioqueue
import PjProject.IoqueueKeys
import PjProject.IoqueueSets
import PjProject.IoqueueWrite
import PjProject.IoqueueWriteSafety
import PjProject.ActiveSock
import PjProject.ActiveSockSafety
import PjProject.RecursiveLock
import PjProject.GrpLock
import PjProject.GrpLockSafety
import PjProject.BinaryHeap
import PjProject.TimerHeap
import PjProject.TimerHeapSafety
import PjProject.BinaryTree
import PjProject.RbTree
import PjProject.RbTreeShape
import PjProject.RedBlack
import PjProject.RbTreeInsert
import PjProject.RbTreeErase
import PjProject.RbTreeWalk
import PjProject.RbTreeSafety
import PjProject.RbTreeBalance
import PjProject.FifoBuf
import PjProject.FifoBufSafety
import PjProject.CachingPool
import PjProject.CachingPoolSafety
import PjProject.FiniteMap
import PjProject.HashTable
import PjProject.HashTableMap
import PjProject.Bytes
import PjProject.Dns
import PjProject.DnsQuery
import PjProject.DnsFraming
import PjProject.WebSockFrame
import PjProject.Framing
import PjProject.WebSock
import PjProject.WebSockSegments
import PjProject.WebSockClose
import PjProject.DnsResolverTables
import PjProject.DnsResolver
import PjProject.DnsResolverProgress
import PjProject.DnsResolverNodes
import PjProject.TimerHeapReheap
import PjProject.Base64
import PjProject.IceRoles
import PjProject.WebSockSend
import PjProject.Scanner
import PjProject.ScannerSafety
import PjProject.ScanInput
import PjProject.Json
import PjProject.JsonRoundTrip
import PjProject.Xml
import PjProject.XmlRoundTrip
import PjProject.XmlSafety
import PjProject.SockaddrRoundTrip
import PjProject.Sockaddr
import PjProject.Jbuf
import PjProject.JbufWindow
import PjProject.Circular
import PjProject.JbufPut
import PjProject.JbufSafety
import PjProject.JbufOrder
import PjProject.Stun
import PjProject.StunAttrs
import PjProject.StunRoundTrip
import PjProject.StunEncode
import PjProject.DnsCache
import PjProject.SrvResolver
import PjProject.DnsCacheSafety
import PjProject.SipTransaction
import PjProject.SipTransactionSends
import PjProject.SipTransactionStates
import PjProject.SipTransactionWorkers
import PjProject.SipTransactionTimeouts
import PjProject.Sdp
import PjProject.SdpNegAnswer
import PjProject.SdpNegOffer
import PjProject.SdpNegMap
import PjProject.SdpCmp
import PjProject.SdpNeg
import PjProject.SdpNegAligned
import PjProject.SdpNegVersions
import PjProject.SdpNegSelect
import PjProject.SdpNegShape
import PjProject.Rtp
import PjProject.TurnSock
import PjProject.TurnSockSegments
import PjProject.Sip100relSteps
import PjProject.Sip100rel
import PjProject.Sip100relOrder
import PjProject.Sip100relKept
import PjProject.SipScan
import PjProject.SipFraming
import PjProject.SipMessages
import PjProject.SipSegments
import PjProject.FifoBufGap
import PjProject.DnsBuffer
import PjProject.DnsNames
import PjProject.ActiveSockRead
import PjProject.ActiveSockReadSafety
import PjProject.Slots
import PjProject.IoqueueCallback
import PjProject.IoqueueCallbackSafety
import PjProject.TurnChannels
import PjProject.TurnChannelsSafety
import PjProject.TimerHeapFailure
import PjProject.TimerService
import PjProject.TimerHeapTimers
import PjProject.TimerHeapPolls
import PjProject.SessionTimer
import PjProject.SessionTimerSafety
import PjProject.StunSizes
import PjProject.StunKept
import PjProject.StunBuffer
import PjProject.UriEscape
import PjProject.HashLower
import PjProject.WebSockReconnect
import PjProject.WebSockMessages
import PjProject.XmlOverflow
import PjProject.JsonIndent
import PjProject.SockaddrForms
import PjProject.Numbers
import PjProject.NumbersText
import PjProject.NumbersRoundTrip
import PjProject.IcePriority
import PjProject.SdpPrint
import PjProject.StunDecode
import PjProject.StunCheck
import PjProject.StunTsxEnds
import PjProject.StunTsx
import PjProject.SdpNegAtomic
import PjProject.SdpNegMem
import PjProject.IceChecklist
import PjProject.SelectionSort
import PjProject.Ice
import PjProject.IceCapacity
import PjProject.IceFrame
import PjProject.SipTransactionRepeat
import PjProject.SipTransactionInterval
import PjProject.JbufPeek
import PjProject.SessionTimerRejected
import PjProject.SipTransactionKey
import PjProject.SipUri
import PjProject.SipMsgPrint
import PjProject.SipParse
import PjProject.SrvOrder
import PjProject.SipMultipart
import PjProject.SipMultipartPrint
import PjProject.SipMultipartHdr
import PjProject.SipMultipartRoundTrip
import PjProject.SipMultipartBody
import PjProject.ScannerQuotes
import PjProject.Base64Foreign
import PjProject.SessionTimerRequire
import PjProject.CircBuf
import PjProject.DelayBuf
import PjProject.Rtcp
import PjProject.RtcpLoss
import PjProject.RtcpReport
import PjProject.RtcpDecode
import PjProject.SortedSearch
import PjProject.SipHdrHandler
import PjProject.ConferenceRequests
import PjProject.SipReads
