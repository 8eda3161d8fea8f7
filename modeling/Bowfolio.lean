import Bowfolio.Foundation.Machine
import Bowfolio.Foundation.Collection
import Bowfolio.Foundation.Collect
import Bowfolio.Foundation.Toggle
import Bowfolio.Foundation.LineBreaking
import Bowfolio.Foundation.LineOverlap
import Bowfolio.Foundation.FieldTree
import Bowfolio.Foundation.OrderedScan
import Bowfolio.Swift.Text
import Bowfolio.Firestore.Document
import Bowfolio.Firestore.Coder
import Bowfolio.Firestore.FieldPath
import Bowfolio.Firestore.ResourcePath
import Bowfolio.Firestore.FieldValue
import Bowfolio.Firestore.Mutation
import Bowfolio.Firestore.MutationBatch
import Bowfolio.Firestore.MutationQueue
import Bowfolio.Firestore.LocalDocuments
import Bowfolio.Firestore.LocalStore
import Bowfolio.Firestore.WriteStream
import Bowfolio.Firestore.RemoteStore
import Bowfolio.Firestore.SyncEngine
import Bowfolio.Firestore.RemoteUpdates
import Bowfolio.Firestore.UserData
import Bowfolio.Firestore.MergeData
import Bowfolio.Firestore.Requests
import Bowfolio.Firestore.LatencyCompensation
import Bowfolio.Storage.Path
import Bowfolio.Model.Records
import Bowfolio.Model.Data
import Bowfolio.ViewModel.Writes
import Bowfolio.Store.Schema
import Bowfolio.Store.RoundTrip
import Bowfolio.Store.Avatars
import Bowfolio.View.Interests
import Bowfolio.View.Selections
import Bowfolio.View.Filter
import Bowfolio.View.Cards
import Bowfolio.View.ChipLayout
import Bowfolio.View.ChipOverlap
import Bowfolio.View.EditProfile
import Bowfolio.View.Home
import Bowfolio.View.AddProject
import Bowfolio.View.SignUp
import Bowfolio.Account.Registration
import Bowfolio.Account.Listeners
import Bowfolio.Editor.ForeignWrites
import Bowfolio.Editor.OwnDocument
import Bowfolio.Editor.Sessions
import Bowfolio.Editor.WriteOrder
import Bowfolio.Creation.UniqueNames
import Bowfolio.Creation.OwnPicture
import Bowfolio.Creation.ProjectNames
import Bowfolio.Creation.Clients
import Bowfolio.Creation.References
import Bowfolio.Creation.Participants
import Bowfolio.Creation.Concurrent
import Bowfolio.Creation.Retry
import Bowfolio.Editor.WriteOrder
