import RevisionForest.Json.Shown
import RevisionForest.Proofs.Convergence
import RevisionForest.Proofs.LostUpdate
import RevisionForest.Proofs.Aborts
import RevisionForest.Proofs.Replay
import RevisionForest.Proofs.Polling
import RevisionForest.Proofs.Settlement
import RevisionForest.Proofs.Permanence
import RevisionForest.Proofs.Integrity
import RevisionForest.Proofs.Ancestry
import RevisionForest.Proofs.Backing
import RevisionForest.Proofs.Replicas
import RevisionForest.Proofs.Idempotence
import RevisionForest.Proofs.Sowing
import RevisionForest.Proofs.Copies
import RevisionForest.Proofs.Luggage
import RevisionForest.Proofs.Isolation
import RevisionForest.Proofs.Delivery
import RevisionForest.Proofs.Recovery
import RevisionForest.Proofs.Connection
import RevisionForest.Proofs.Recoverable
import RevisionForest.Proofs.Tips
import RevisionForest.Proofs.Burials
import RevisionForest.Proofs.Answers
import RevisionForest.Proofs.Histories
import RevisionForest.Proofs.Scions
import RevisionForest.Proofs.Successors
import RevisionForest.Proofs.Itemwise
import RevisionForest.Proofs.Tombstones
import RevisionForest.Proofs.Founding
import RevisionForest.Proofs.Paging
import RevisionForest.Proofs.Census
import RevisionForest.Proofs.Provenance
import RevisionForest.Proofs.Coronation
import RevisionForest.Proofs.Spelling
import RevisionForest.Proofs.Descriptions
import RevisionForest.Proofs.Primacy
