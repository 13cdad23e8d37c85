import QueryTree.Json.Reader
import QueryTree.Log
import QueryTree.Printable
import QueryTree.Session
import QueryTree.Proofs.Building
import QueryTree.Proofs.Depth
import QueryTree.Proofs.Directives
import QueryTree.Proofs.Entries
import QueryTree.Proofs.Equality
import QueryTree.Proofs.Grammatical
import QueryTree.Proofs.Hollow
import QueryTree.Proofs.Ignoring
import QueryTree.Proofs.Image
import QueryTree.Proofs.Integers
import QueryTree.Proofs.Locality
import QueryTree.Proofs.Offences
import QueryTree.Proofs.Prefix
import QueryTree.Proofs.Reading.Literal
import QueryTree.Proofs.ReadBack
import QueryTree.Proofs.Respelling
import QueryTree.Proofs.Unambiguous
import QueryTree.Proofs.Unbroken
import QueryTree.Proofs.Unshown
