import LineStore.Main
import LineStore.Proofs.ReplyOrder
import LineStore.Proofs.RequestGrammar
import LineStore.Proofs.StoredWords
import LineStore.Proofs.Service
import LineStore.Store.Threads
import LineStore.Workload
import LineStore.Proofs.ReplyLines
import LineStore.Proofs.Settling
import LineStore.Proofs.Agreement
import LineStore.Proofs.Isolation
import LineStore.Proofs.Draining
import LineStore.Proofs.Closing
import LineStore.Proofs.Bookkeeping
import LineStore.Proofs.Sharding
import LineStore.Proofs.Conservation
import LineStore.Proofs.Metering
import LineStore.Proofs.Accounts
import LineStore.Proofs.Census
import LineStore.Proofs.Requests
import LineStore.Proofs.InStep
import LineStore.Proofs.CutReplies
import LineStore.Proofs.Effects
import LineStore.Proofs.Watching
import LineStore.Proofs.Contention
import LineStore.Proofs.InputLines
import LineStore.Proofs.Dialogue
import LineStore.Proofs.Layering
import LineStore.Proofs.Buffering
import LineStore.Proofs.TextLines
import LineStore.Proofs.KeyCount
