import Rustack.DynamoDB.TableStatistics
import Rustack.DynamoDB.Query
import Rustack.DynamoDB.Expression.Panics
import Rustack.DynamoDB.GlobalIndex
import Rustack.S3.VersionPages
import Rustack.S3.ObjectLock
import Rustack.S3.Interleaving
import Rustack.SQS.Snapshot
import Rustack.SQS.FifoOrder
import Rustack.StepFunctions.History.Pages
import Rustack.Kinesis.Retention
import Rustack.Kinesis.Provider
import Rustack.Secrets.Runs
import Rustack.SSM.Runs
import Rustack.CloudFront.PathPattern
import Rustack.CloudFront.Transparency
import Rustack.ApiGateway.Router
import Rustack.Streams.Readers
import Rustack.S3.SignedUpload
import Rustack.DynamoDB.NumberFormat
import Rustack.DynamoDB.NumberComparison
import Rustack.DynamoDB.ProjectionExact
import Rustack.StepFunctions.Choice.Glob
import Rustack.StepFunctions.Path
import Rustack.SQS.AttributeUpdates
import Rustack.SQS.Instants
import Rustack.StepFunctions.Engine.Jitter
import Rustack.StepFunctions.Engine.Recovery
import Rustack.DynamoDB.AttributesToGet
import Rustack.S3.FormReturned
import Rustack.S3.Assembly
import Rustack.Snapshot.Archive
import Rustack.Snapshot.Scan
import Rustack.Lambda.DockerOutput
import Rustack.Events.Delivery.Transform
import Rustack.Events.Pattern.Exact
import Rustack.StepFunctions.Payload
import Rustack.CloudWatch.Aggregation
import Rustack.DynamoDB.TableMap
import Rustack.DynamoDB.Coordination
