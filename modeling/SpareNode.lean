import SpareNode.Authentication.EndedSessions
import SpareNode.Authentication.LoginIndistinguishability
import SpareNode.Authentication.LoginStorage
import SpareNode.Authentication.LoginThrottling
import SpareNode.Authentication.ProvisioningRuns
import SpareNode.Bootstrap.StartUp
import SpareNode.Filesystem.UploadPublication
import SpareNode.Foundation.AddressArrays
import SpareNode.Http.Api.HiddenPaths
import SpareNode.Http.Request.AbsoluteForm
import SpareNode.Http.Request.HostGrammar
import SpareNode.Http.Routing.RouteDispatch
import SpareNode.Http.Transport.DeadlineArithmetic
import SpareNode.Http.Transport.OriginationDate
import SpareNode.Http.Transport.QueueResidence
import SpareNode.Http.Transport.StreamingRefinement
import SpareNode.Logging.LogStream
import SpareNode.Network.AcceptEnds
import SpareNode.Session.SessionConcurrency
import SpareNode.Storage.SlotProgress
import SpareNode.Storage.WriterRefinement
