import SmartHttpRequester.Foundations.Interleaving
import SmartHttpRequester.Foundations.DirectExchange
import SmartHttpRequester.Foundations.ReadCommitted
import SmartHttpRequester.RabbitTopology
import SmartHttpRequester.TaskOperations
import SmartHttpRequester.TaskPrograms
import SmartHttpRequester.TaskSystem
import SmartHttpRequester.TaskDiscipline
import SmartHttpRequester.TaskLifecycle
import SmartHttpRequester.TaskIsolation
import SmartHttpRequester.PhantomWork
import SmartHttpRequester.StaleReads
import SmartHttpRequester.EditPending
import SmartHttpRequester.CancelOnce
import SmartHttpRequester.BatchAgreement
import SmartHttpRequester.RefusedBatches
import SmartHttpRequester.Foundations.ExpiringStore
import SmartHttpRequester.Foundations.SlidingWindow
import SmartHttpRequester.RateLimit
import SmartHttpRequester.PasswordHashing
import SmartHttpRequester.RateLimitBursts
import SmartHttpRequester.AuthRequests
import SmartHttpRequester.TokenRows
import SmartHttpRequester.TokenAcceptance
import SmartHttpRequester.UsableSessions
import SmartHttpRequester.RateLimitExpiry
import SmartHttpRequester.RateLimitClients
import SmartHttpRequester.Foundations.SortedPages
import SmartHttpRequester.Pagination
import SmartHttpRequester.SequentialRequests
import SmartHttpRequester.Confidentiality
import SmartHttpRequester.Creations
import SmartHttpRequester.NoLostTask
import SmartHttpRequester.StuckTasks
import SmartHttpRequester.Acknowledged
import SmartHttpRequester.RegisterLogin
import SmartHttpRequester.SessionPrograms
import SmartHttpRequester.SessionSystem
import SmartHttpRequester.SessionPhases
import SmartHttpRequester.SessionRuns
import SmartHttpRequester.LoginRaces
import SmartHttpRequester.Foundations.HeldValues
import SmartHttpRequester.TokenExchange
import SmartHttpRequester.RateLimitHeaders
import SmartHttpRequester.RateLimitWaiting
import SmartHttpRequester.RateLimitRetention
import SmartHttpRequester.StatusNotices
import SmartHttpRequester.PoisonRows
import SmartHttpRequester.StoredResponses
import SmartHttpRequester.BrokerRestarts
import SmartHttpRequester.CanceledMessages
import SmartHttpRequester.AttemptLimits
import SmartHttpRequester.IntegerParameters
import SmartHttpRequester.EndpointNames
import SmartHttpRequester.Foundations.EventLoop
import SmartHttpRequester.Foundations.Schedules
import SmartHttpRequester.RequestMetrics
import SmartHttpRequester.PasswordLogs
import SmartHttpRequester.BrokerConnections
import SmartHttpRequester.Foundations.Progress
import SmartHttpRequester.RequestProgress
import SmartHttpRequester.AuthenticatedRequests
import SmartHttpRequester.Foundations.Linearization
import SmartHttpRequester.TaskStore
import SmartHttpRequester.TaskStories
import SmartHttpRequester.TaskLinearization
import SmartHttpRequester.PublishedOnce
import SmartHttpRequester.Foundations.Registry
import SmartHttpRequester.TopologySetup
import SmartHttpRequester.Foundations.UniqueRows
import SmartHttpRequester.Registrations
import SmartHttpRequester.RegistrationRaces
import SmartHttpRequester.ExpiredSessions
import SmartHttpRequester.SessionStories
import SmartHttpRequester.SessionLinearization
