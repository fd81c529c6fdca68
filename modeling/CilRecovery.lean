import CilRecovery.Recovery.Run
import CilRecovery.Proofs.Independence
import CilRecovery.Proofs.RoundTrip
import CilRecovery.Proofs.Truncation
import CilRecovery.Proofs.Encodings
import CilRecovery.Proofs.Classification
import CilRecovery.Proofs.Records
import CilRecovery.Proofs.Containment
import CilRecovery.Proofs.Typing
import CilRecovery.Proofs.Headers
import CilRecovery.Proofs.Coverage
import CilRecovery.Proofs.Targets
import CilRecovery.Proofs.Stops
import CilRecovery.Proofs.Overloads
import CilRecovery.Proofs.References
import CilRecovery.Proofs.PackedCalls
import CilRecovery.Proofs.Spelling
import CilRecovery.Proofs.ReaderBodies
import CilRecovery.Proofs.Samples
import CilRecovery.Proofs.Base64
import CilRecovery.Proofs.HeaderOrder
import CilRecovery.Proofs.Unreadable
import CilRecovery.Proofs.Groups
import CilRecovery.Proofs.Tokens
import CilRecovery.Proofs.Passwords
import CilRecovery.Proofs.Termination
import CilRecovery.Proofs.Sequences
import CilRecovery.Proofs.Caching
import CilRecovery.Proofs.Cycles
import CilRecovery.Proofs.Scanning
import CilRecovery.Proofs.Nesting
