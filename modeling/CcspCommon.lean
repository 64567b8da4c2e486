import CcspCommon.NamespaceMgr.Consistency
import CcspCommon.NamespaceMgr.Ownership
import CcspCommon.NamespaceMgr.RegNames
import CcspCommon.NamespaceMgr.Requests
import CcspCommon.NamespaceMgr.Discovery
import CcspCommon.DslhObjRecord.InstanceNumbers
import CcspCommon.DslhObjRecord.RowDeletion
import CcspCommon.DslhVarRecord.TstValue
import CcspCommon.DslhWmpDatabase.Database
import CcspCommon.DslhWmpDatabase.Atomicity
import CcspCommon.DslhWmpDatabase.Deliveries
import CcspCommon.DslhWmpDatabase.Sessions
import CcspCommon.DslhWmpDatabase.Completeness
import CcspCommon.DslhWmpDatabase.Attributes
import CcspCommon.DslhWmpDatabase.Visibility
import CcspCommon.DslhWmpDatabase.ArrayBounds
import CcspCommon.AliasMgr.AliasTree
import CcspCommon.AliasMgr.Items
import CcspCommon.AliasMgr.Mappings
import CcspCommon.AliasMgr.Answers
import CcspCommon.AliasMgr.LoadOrder
import CcspCommon.AliasMgr.RoundTrip
import CcspCommon.AnscXmlDomParser.DomNode
import CcspCommon.AnscXmlDomParser.Parser
import CcspCommon.AnscXmlDomParser.Encoding
import CcspCommon.AnscXmlDomParser.Scanning
import CcspCommon.AnscXmlDomParser.Reading
import CcspCommon.AnscXmlDomParser.RoundTrip
import CcspCommon.AnscXmlDomParser.NodeDecode
import CcspCommon.AnscPlatform.DList
import CcspCommon.Shared.Refinement
import CcspCommon.AnscPlatform.Queue
import CcspCommon.AnscPlatform.Packet
import CcspCommon.HttpMessageBody.Process
import CcspCommon.AnscPlatform.Timer
import CcspCommon.AnscPlatform.TimerRuns
import CcspCommon.AnscAsn1.BitString
import CcspCommon.AnscAsn1.OidValues
import CcspCommon.HttpMboChunked.Segmentation
import CcspCommon.AnscXmlDomParser.EncodedSize
import CcspCommon.DslhVarRecord.MacAddress
import CcspCommon.DslhVarRecord.MaskString
import CcspCommon.DslhVarRecord.IpRanges
import CcspCommon.DslhWmpDatabase.ParamDataType
import CcspCommon.AliasMgr.LookupBuffers
import CcspCommon.AnscXmlDomParser.Places
import CcspCommon.AnscXmlDomParser.Suffixes
import CcspCommon.AnscXmlDomParser.StaysInside
import CcspCommon.AnscXmlDomParser.Agreement
import CcspCommon.AnscAsn1.TagCodec
import CcspCommon.AnscAsn1.LengthCodec
import CcspCommon.AnscPlatform.Ip6Parsing
import CcspCommon.DslhVarRecord.UrlString
import CcspCommon.SlapVarConverter.OidList
import CcspCommon.SlapVarHelper.ParamList
import CcspCommon.SlapVarConverter.AddrLists
import CcspCommon.AnscAsn1.IntegerCodec
import CcspCommon.AnscPlatform.Base64
import CcspCommon.AnscPlatform.OidArray
import CcspCommon.AnscPlatform.TokenChain
import CcspCommon.HttpMboChunked.ChunkExtensions
import CcspCommon.HttpMboChunked.ChunkSizes
import CcspCommon.HttpMboChunked.RemoveCoding
import CcspCommon.AnscAsn1.ConstructedBitString
import CcspCommon.AnscAsn1.OidCodec
import CcspCommon.HttpMboChunked.Reset
import CcspCommon.AnscPlatform.Checksum
import CcspCommon.HttpBasicMessage.HeaderEnd
import CcspCommon.HttpSmpo.BoundarySearch
import CcspCommon.HttpSmpo.FormData
import CcspCommon.HttpSmpo.RequestUri
import CcspCommon.HttpSmpo.FieldData
import CcspCommon.AnscAsn1.InfiniteEnd
import CcspCommon.AnscPlatform.Calendar
import CcspCommon.AnscPlatform.IncrementalChecksum
import CcspCommon.DslhVarRecord.SpaceRemoval
import CcspCommon.HttpBasicMessage.PrepareHeader
import CcspCommon.HttpMessageBody.BoundaryPos
import CcspCommon.AnscLpcConnector.Receiving
import CcspCommon.AnscLpcConnector.CallMatching
import CcspCommon.AnscLpcConnector.CallQueue
import CcspCommon.SlapLoam.RemoteInvocation
