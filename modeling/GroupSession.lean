import GroupSession.Sender
import GroupSession.Session
import GroupSession.Proofs.Delivery
import GroupSession.Proofs.Joining
import GroupSession.Proofs.Logging
import GroupSession.Proofs.Peer
import GroupSession.Proofs.Randomness
import GroupSession.Proofs.Sharing
import GroupSession.Proofs.Forgetting
import GroupSession.Proofs.Authenticity
import GroupSession.Proofs.Restoring
import GroupSession.Proofs.Waypoints
import GroupSession.Proofs.Cost
import GroupSession.Proofs.Interruption
import GroupSession.Proofs.Encryption
import GroupSession.Proofs.Secrecy
import GroupSession.Proofs.SingleStep
import GroupSession.Proofs.JumpArithmetic
