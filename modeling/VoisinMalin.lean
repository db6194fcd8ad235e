import VoisinMalin.Deletion
import VoisinMalin.Favourite
import VoisinMalin.Schema
import VoisinMalin.Resync
import VoisinMalin.AdList
import VoisinMalin.Navigation
import VoisinMalin.Provenance
import VoisinMalin.Publishing
import VoisinMalin.Credentials
import VoisinMalin.Distances
import VoisinMalin.HiddenAddress
import VoisinMalin.Marks
import VoisinMalin.RoundTrip
import VoisinMalin.Agreement
import VoisinMalin.SignUp
import VoisinMalin.NameLabel
import VoisinMalin.Ownership
import VoisinMalin.Validation
import VoisinMalin.Acceptance
import VoisinMalin.Coordinates
import VoisinMalin.DetailScreen
import VoisinMalin.HomeLifetime
import VoisinMalin.Rows
import VoisinMalin.Swipes
import VoisinMalin.Cells
import VoisinMalin.Concurrent
import VoisinMalin.Marketplace
import VoisinMalin.Firestore.FieldPath
import VoisinMalin.Firestore.Changes
import VoisinMalin.Firestore.Mutation
import VoisinMalin.Firestore.Reading
